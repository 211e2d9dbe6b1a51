/-
From a plan to a script.

Each step of the plan becomes a function, and a last function runs them in order. A single action
is found on the page and done. A loop fetches the rows of its table and does its body on each of
them; what a click leads to is done on the page that it opened, and then the script goes back to
the table and fetches the row anew.
-/
import Retrace.Plan.Build
import Retrace.Script.Prelude
import Retrace.Settings

set_option autoImplicit false

namespace Retrace.Script

/-- A step or a loop refers to a node that the plan does not have. -/
structure MissingNode where
  index : Nat
  deriving Repr, DecidableEq

def nodeAt (plan : Plan String) (index : Nat) : Except MissingNode (Node String) :=
  match plan.nodes[index]? with
  | some node => .ok node
  | none => .error ⟨index⟩

/-! ## One action -/

/-- Where an element is looked for. -/
inductive Scope where
  | page
  | row
  deriving Repr, DecidableEq

def Scope.name : Scope → String
  | .page => "page"
  | .row => "row"

/-- Where a text that is read goes to. -/
inductive Sink where
  | fields
  | record
  deriving Repr, DecidableEq

def Sink.name : Sink → String
  | .fields => "data[\"fields\"]"
  | .record => "record"

def locateLine (node : Node String) (scope : Scope) : Line :=
  if node.relative && node.locator = "" then code 0 "el = row"
  else ⟨0, [.code ("el = await find_element(" ++ scope.name ++ ", "), .literal node.locator,
    .code ")"]⟩

/-- The name under which a text is kept: the label, or the locator if there is none. -/
def fieldName (node : Node String) : String :=
  match node.label with
  | none | some "" => node.locator
  | some label => label

/-- The line that acts on the element. -/
def actLine (node : Node String) (sink : Sink) : Line :=
  match node.kind with
  | .click => code 0 "await el.click()"
  | .input => ⟨0, [.code "await el.fill(", .literal (node.value.getD ""), .code ")"]⟩
  | .select =>
    ⟨0, [.code "await el.select_option(label=", .literal (node.value.getD ""), .code ")"]⟩
  | _ => ⟨0, [.code (sink.name ++ "["), .literal (fieldName node),
      .code "] = (await el.inner_text()).strip()"]⟩

def actionLines (node : Node String) (scope : Scope) (sink : Sink) : List Line :=
  [locateLine node scope, actLine node sink]

/-! ## Steps -/

/-- The name of the function of a step. -/
def stepName (index : Nat) : String := s!"step_{index}"

/-- The first line of the function of a step. -/
def stepHead (index : Nat) : Line := code 0 ("async def " ++ stepName index ++ "(page, data):")

/-- The function of a step that is a single action. -/
def actionFunction (index : Nat) (node : Node String) : Block :=
  [stepHead index, ⟨1, [.code ("# " ++ node.kind.name ++ ": "), .remark node.locator]⟩]
    ++ (actionLines node .page .fields).map (Line.nest 1)

def fetchRow : Line := code 0 "row = await current_row(page, subject, rows_selector, index)"

/-- The lines of one node of a loop's body. What a click leads to follows it. -/
def bodyLines (plan : Plan String) (index : Nat) : Except MissingNode (List Line) := do
  let node ← nodeAt plan index
  let own := actionLines node (if node.relative then .row else .page) .record
  if node.kind = .click && !node.postClicks.isEmpty then
    let after ← node.postClicks.mapM (nodeAt plan)
    return own ++ [code 0 "await page.wait_for_load_state(\"domcontentloaded\")"]
      ++ after.flatMap (actionLines · .page .record)
      ++ [code 0 "await return_to_list(page, subject, list_url)", fetchRow]
  else return own

/-- The lines that do the body of a loop on every row that is shown. -/
def rowPass (plan : Plan String) (l : Loop) : Except MissingNode (List Line) := do
  let body ← l.body.mapM (bodyLines plan)
  return [
      code 0 "await wait_for_page(page, subject)",
      code 0 "list_url = page.url",
      code 0 "row_count = await (await find_element(page, subject)).locator(rows_selector).count()",
      code 0 "for index in range(row_count):",
      code 1 "for attempt in range(1, MAX_RETRIES + 1):",
      code 2 "try:"]
    ++ ([fetchRow, code 0 "record = \x7b\x7d"] ++ body.flatten
      ++ [code 0 "records.append(record)", code 0 "break"]).map (Line.nest 3)
    ++ [
      code 2 "except Exception as exc:",
      code 3 "logger.warning(",
      code 4 "\"row %d on page %d failed (attempt %d/%d): %s\",",
      code 4 "index + 1, page_number, attempt, MAX_RETRIES, exc,",
      code 3 ")",
      code 3 "await return_to_list(page, subject, list_url)",
      code 1 "else:",
      code 2 "logger.error(\"Skipping row %d on page %d\", index + 1, page_number)"]

/-- The control for the next page, if the loop has one that is not empty. -/
def nextControl? (l : Loop) : Option String := l.pagination.filter (· != "")

/-- The function of a step that is a loop. -/
def loopFunction (plan : Plan String) (index : Nat) (l : Loop) : Except MissingNode Block := do
  let pass ← rowPass plan l
  let head := [
    stepHead index,
    ⟨1, [.code "# table loop over ", .remark l.subject]⟩,
    ⟨1, [.code "subject = ", .literal l.subject]⟩,
    ⟨1, [.code "rows_selector = ", .literal l.rowSelector]⟩,
    code 1 "records = []",
    code 1 "data[\"tables\"].append(records)"]
  match nextControl? l with
  | none => return head ++ [code 1 "page_number = 1"] ++ pass.map (Line.nest 1)
  | some control =>
    return head
      ++ [⟨1, [.code "next_selector = ", .literal control]⟩,
        code 1 "for page_number in range(1, MAX_PAGES + 1):"]
      ++ pass.map (Line.nest 2)
      ++ [code 2 "if not await pagination_available(page, next_selector):",
        code 3 "break",
        code 2 "old_row = await first_row_handle(page, subject, rows_selector)",
        code 2 "await (await find_element(page, next_selector)).click()",
        code 2 "await wait_for_next_page(page, subject, old_row)"]

def stepFunction (plan : Plan String) (index : Nat) : Step → Except MissingNode Block
  | .node i => actionFunction index <$> nodeAt plan i
  | .loop l => loopFunction plan index l

def callLine (index : Nat) : Step → Line
  | .loop _ => code 2 ("await " ++ stepName index ++ "(page, data)")
  | .node _ =>
    code 2 ("await run_step(\"" ++ stepName index ++ "\", " ++ stepName index ++ ", page, data)")

/-! ## The frame of a script -/

/-- What the script was made from. `count` tells the number of actions. -/
def summary (plan : Plan String) (count : String) : Block :=
  [code 0 "\"\"\"", code 0 "Recorded browser workflow.", blank,
    code 0 s!"actions: {count}", code 0 s!"steps: {plan.steps.length}",
    code 0 s!"table loops: {plan.loops.length}", code 0 "\"\"\""]

def imports : Block :=
  [code 0 "from __future__ import annotations", blank, code 0 "import argparse",
    code 0 "import asyncio", code 0 "import json", code 0 "import logging", blank,
    code 0 "from playwright.async_api import async_playwright"]

def constants (settings : Settings) (plan : Plan String) : Block :=
  [⟨0, [.code "BASE_URL = ", .literal plan.baseUrl]⟩,
    code 0 ("HEADLESS = " ++ if settings.headless then "True" else "False"),
    code 0 s!"WAIT_TIMEOUT = {settings.waitTimeout}",
    code 0 s!"MAX_RETRIES = {settings.maxRetries}",
    code 0 s!"MAX_PAGES = {settings.maxPages}", blank,
    code 0 "logger = logging.getLogger(\"recorded_workflow\")"]

/-- The function that runs all steps in a browser. -/
def runFunction (plan : Plan String) : Block :=
  [code 0 "async def run_workflow(page=None, base_url=BASE_URL, headless=HEADLESS):",
    code 1 "\"\"\"Run the recorded workflow. If page is None, creates its own browser.\"\"\"",
    code 1 "data = \x7b\"fields\": \x7b\x7d, \"tables\": []\x7d",
    code 1 "_own_browser = page is None",
    code 1 "_playwright = None",
    code 1 "_browser = None",
    code 1 "try:",
    code 2 "if _own_browser:",
    code 3 "_playwright = await async_playwright().start()",
    code 3 "_browser = await _playwright.chromium.launch(headless=headless)",
    code 3 "page = await _browser.new_page()",
    code 2 "if base_url:",
    code 3 "await page.goto(base_url)"]
  ++ plan.steps.mapIdx callLine
  ++ [code 1 "finally:",
    code 2 "if _own_browser and _browser:",
    code 3 "await _browser.close()",
    code 2 "if _own_browser and _playwright:",
    code 3 "await _playwright.stop()",
    code 1 "return data"]

/-- What is done when the script is started by itself. -/
def entry : Block :=
  [code 0 "if __name__ == \"__main__\":",
    code 1 "parser = argparse.ArgumentParser(description=\"Replay a recorded browser workflow.\")",
    code 1 "parser.add_argument(\"--base-url\", default=BASE_URL)",
    code 1 "parser.add_argument(\"--headless\", action=\"store_true\", default=HEADLESS)",
    code 1 "parser.add_argument(\"--verbose\", action=\"store_true\")",
    code 1 "args = parser.parse_args()",
    code 1 "logging.basicConfig(",
    code 2 "level=logging.DEBUG if args.verbose else logging.INFO,",
    code 2 "format=\"%(asctime)s %(levelname)s %(message)s\",",
    code 1 ")",
    code 1 "result = asyncio.run(run_workflow(base_url=args.base_url, headless=args.headless))",
    code 1 "print(json.dumps(result, indent=2, ensure_ascii=False))"]

/-! ## The whole script -/

/-- Does any loop go over several pages? -/
def hasPagination (plan : Plan String) : Bool := plan.loops.any fun l => (nextControl? l).isSome

/-- The script of a plan. The number of its actions can be told in another way. -/
def ofPlan (settings : Settings) (plan : Plan String)
    (count : String := toString plan.actionCount) : Except MissingNode Script := do
  let steps ← (plan.steps.mapIdx fun i s => (i, s)).mapM fun (i, s) => stepFunction plan i s
  return ⟨[summary plan count, imports, constants settings plan]
    ++ fixedFunctions (!plan.loops.isEmpty) (hasPagination plan)
    ++ steps ++ [runFunction plan, entry]⟩

/-! ## Compiling a log -/

/-- What is odd about a log that is compiled. -/
inductive Notice where
  | plan (notice : Plan.Notice)
  | skipped (count : Nat)
  deriving Repr, DecidableEq

def Notice.message : Notice → String
  | .plan notice => notice.message
  | .skipped count => s!"Skipped {count} out-of-order boundary action(s)"

/-- The script of the actions, and what is odd about them. -/
def compile (settings : Settings) (actions : List (Action String)) (baseUrl : String) :
    Except MissingNode Script × List Notice :=
  let (plan, notices) := Plan.ofActions actions baseUrl
  (ofPlan settings plan,
    notices.map .plan ++ if plan.skipped = 0 then [] else [.skipped plan.skipped])

end Retrace.Script
