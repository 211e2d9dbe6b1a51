/-
The fixed functions of a script.

Every script brings the functions for finding elements and running steps. Those for rows of a
table come with the first loop, and those for further pages with the first loop that has any.
-/
import Retrace.Script.Line

set_option autoImplicit false

namespace Retrace.Script

/-! ## For every script -/

/-- Finds an element within a limit of time. -/
def findElement : List Line :=
  [ code 0 "async def find_element(scope, selector, timeout=WAIT_TIMEOUT):",
    code 1 "\"\"\"Wait (bounded) for the first element matching selector under scope.\"\"\"",
    code 1 "loc = scope.locator(selector).first",
    code 1 "await loc.wait_for(state=\"attached\", timeout=timeout)",
    code 1 "return loc" ]

/-- Waits until a page shows an element again. -/
def waitForPage : List Line :=
  [ code 0 "async def wait_for_page(page, selector, timeout=WAIT_TIMEOUT):",
    code 1 "\"\"\"Block until the page shows selector again after a navigation.\"\"\"",
    code 1 "await page.wait_for_load_state(\"domcontentloaded\")",
    code 1 "await page.locator(selector).first.wait_for(state=\"attached\", timeout=timeout)" ]

/-- Runs a step, again if it fails. -/
def runStep : List Line :=
  [ code 0 "async def run_step(name, step, page, data):",
    code 1 "\"\"\"Run one top-level step, retrying before giving up.\"\"\"",
    code 1 "for attempt in range(1, MAX_RETRIES + 1):",
    code 2 "try:",
    code 3 "await step(page, data)",
    code 3 "return",
    code 2 "except Exception as exc:",
    code 3 "logger.warning(\"%s failed (attempt %d/%d): %s\", name, attempt, MAX_RETRIES, exc)",
    code 3 "if attempt == MAX_RETRIES:",
    code 4 "raise" ]

/-! ## For loops -/

/-- Finds a row of a table anew. -/
def currentRow : List Line :=
  [ code 0 "async def current_row(page, subject, rows_selector, index):",
    code 1 "\"\"\"Re-resolve the row at index from a freshly fetched row list.\"\"\"",
    code 1 "container = await find_element(page, subject)",
    code 1 "row = container.locator(rows_selector).nth(index)",
    code 1 "await row.wait_for(state=\"attached\", timeout=WAIT_TIMEOUT)",
    code 1 "return row" ]

/-- Goes back to the page with the table. -/
def returnToList : List Line :=
  [ code 0 "async def return_to_list(page, subject, list_url, max_steps=5):",
    code 1 "\"\"\"Go back to the row list, however many pages the row's actions moved on.\"\"\"",
    code 1 "for _ in range(max_steps):",
    code 2 "if page.url == list_url:",
    code 3 "break",
    code 2 "await page.go_back()",
    code 1 "if page.url != list_url:",
    code 2 "await page.goto(list_url)",
    code 1 "await wait_for_page(page, subject)" ]

/-! ## For loops over several pages -/

/-- Is there a further page of the table? -/
def paginationAvailable : List Line :=
  [ code 0 "async def pagination_available(page, selector):",
    code 1 "\"\"\"True when the pagination control exists, is enabled and not marked exhausted.\"\"\"",
    code 1 "button = page.locator(selector)",
    code 1 "if await button.count() == 0:",
    code 2 "return False",
    code 1 "button = button.first",
    code 1 "if not await button.is_visible() or not await button.is_enabled():",
    code 2 "return False",
    code 1 "if (await button.get_attribute(\"aria-disabled\") or \"\").lower() == \"true\":",
    code 2 "return False",
    code 1 "classes = (await button.get_attribute(\"class\") or \"\").split()",
    code 1 "return not any(c in (\"disabled\", \"is-disabled\", \"inactive\") for c in classes)" ]

/-- The first row that is shown, to see when it goes away. -/
def firstRowHandle : List Line :=
  [ code 0 "async def first_row_handle(page, subject, rows_selector):",
    code 1 "rows = (await find_element(page, subject)).locator(rows_selector)",
    code 1 "if await rows.count() == 0:",
    code 2 "return None",
    code 1 "return await rows.first.element_handle()" ]

/-- Waits until the rows of the last page are gone. -/
def waitForNextPage : List Line :=
  [ code 0 "async def wait_for_next_page(page, subject, old_row):",
    code 1 "\"\"\"Wait until the rows shown before the pagination click are gone.\"\"\"",
    code 1 "if old_row is not None:",
    code 2 "try:",
    code 3 "await page.wait_for_function(\"row => !row.isConnected\", arg=old_row, timeout=WAIT_TIMEOUT)",
    code 2 "except Exception as exc:",
    code 3 "# A full navigation destroys the handle's context: the rows are gone",
    code 3 "logger.debug(\"pagination wait ended: %s\", exc)",
    code 1 "await wait_for_page(page, subject)" ]

/-- The functions that a script with the given features brings. -/
def fixedFunctions (hasLoop hasPagination : Bool) : List Block :=
  [findElement, waitForPage, runStep]
    ++ (if hasLoop then [currentRow, returnToList] else [])
    ++ (if hasPagination then [paginationAvailable, firstRowHandle, waitForNextPage] else [])

end Retrace.Script
