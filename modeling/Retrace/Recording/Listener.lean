/-
The listener that runs inside of a page.

It hears clicks, changes, keys and the pointer, and hands each event over together with the
markup of the page, in which the target is marked for that moment. It also brings the keys of
the recorder's controls. The class of the overlay is the only part that varies.
-/
import Retrace.Event
import Retrace.Json.Writer

set_option autoImplicit false

namespace Retrace.Listener

/-- The function of the page through which events are handed over. -/
def eventBinding : String := "__scriptRecorderEmit"

/-- The functions of the page for the recorder's controls. -/
def toggleBinding : String := "__scriptRecorderToggleLoop"

/-- The function that goes on without a control for the next page. -/
def skipBinding : String := "__scriptRecorderSkipPagination"

/-- The function that gives the pinned element a label. -/
def labelBinding : String := "__scriptRecorderAssignLabel"

/-! ## The parts of the listener -/

/-- A listener is installed once in a page. -/
def headLines : List String :=
  [ "(() => \x7b",
    "    if (window.__scriptRecorderInstalled) return;",
    "    window.__scriptRecorderInstalled = true;",
    "" ]

def stateLines : List String :=
  [ "    let altHeld = false;",
    "    let labelArmed = false;" ]

/-- The markup of the page with the target marked. -/
def snapshotLines : List String :=
  [ "    function snapshot(target) \x7b",
    "        if (!(target instanceof Element)) return null;",
    "        target.setAttribute(MARKER, \"\");",
    "        try \x7b",
    "            return document.documentElement.outerHTML;",
    "        \x7d finally \x7b",
    "            target.removeAttribute(MARKER);",
    "        \x7d",
    "    \x7d" ]

/-- Hands an event over to the recorder. -/
def sendLines : List String :=
  [ "    function send(type, event, extra) \x7b",
    "        const target = event.target;",
    "        const payload = Object.assign(\x7b",
    "            type: type,",
    "            url: window.location.href,",
    "            key: event.key || \"\",",
    "        \x7d, extra || \x7b\x7d);",
    "        if (target instanceof Element) \x7b",
    "            payload.html = snapshot(target);",
    "            payload.cursor = getComputedStyle(target).cursor;",
    "            payload.tabIndex = target.tabIndex;",
    "            if (\"value\" in target) payload.value = String(target.value);",
    "            if (target.tagName === \"SELECT\" && target.selectedIndex >= 0) \x7b",
    "                payload.selectedText = target.options[target.selectedIndex].text.trim();",
    "            \x7d",
    "        \x7d",
    "        window[BINDING](payload);",
    "    \x7d" ]

/-- Asks for the name of a label. -/
def labelLines : List String :=
  [ "    function askLabel() \x7b",
    "        const box = document.createElement(\"input\");",
    "        box.className = IGNORE;",
    "        box.placeholder = \"Field label (Enter to save, Esc to cancel)\";",
    "        box.style.cssText = \"position:fixed;top:8px;right:8px;z-index:2147483647;padding:4px;\";",
    "        box.addEventListener(\"keydown\", (e) => \x7b",
    "            if (e.key === \"Enter\") \x7b",
    "                const name = box.value;",
    "                box.remove();",
    "                window.__scriptRecorderAssignLabel(name).then((saved) => \x7b",
    "                    if (saved) labelArmed = false;",
    "                \x7d);",
    "            \x7d else if (e.key === \"Escape\") \x7b",
    "                box.remove();",
    "            \x7d",
    "        \x7d);",
    "        document.body.appendChild(box);",
    "        box.focus();",
    "    \x7d" ]

def shortcutLines : List String :=
  [ "    const SHORTCUTS = \x7b",
    "        F2: () => window.__scriptRecorderToggleLoop().then((caption) => console.info(caption)),",
    "        F3: () => window.__scriptRecorderSkipPagination().then((caption) => console.info(caption)),",
    "        F4: askLabel,",
    "    \x7d;" ]

def hookLines : List String :=
  [ "    document.addEventListener(\"click\", (e) => send(\"click\", e), true);",
    "    document.addEventListener(\"input\", (e) => send(\"input\", e), true);",
    "    document.addEventListener(\"change\", (e) => \x7b",
    "        if (e.target instanceof HTMLSelectElement) send(\"change\", e);",
    "    \x7d, true);",
    "    document.addEventListener(\"keydown\", (e) => \x7b",
    "        if (SHORTCUTS[e.key]) \x7b",
    "            e.preventDefault();",
    "            SHORTCUTS[e.key]();",
    "        \x7d else if (e.key === \"Alt\") \x7b",
    "            altHeld = true;",
    "            e.preventDefault();",
    "            send(\"keydown\", \x7btarget: null, key: e.key\x7d);",
    "        \x7d",
    "    \x7d, true);",
    "    document.addEventListener(\"keyup\", (e) => \x7b",
    "        if (e.key === \"Alt\") \x7b",
    "            altHeld = false;",
    "            send(\"keyup\", \x7btarget: null, key: e.key\x7d);",
    "        \x7d else if (e.key === \"Control\") \x7b",
    "            labelArmed = !labelArmed;",
    "            send(\"keyup\", \x7btarget: null, key: e.key\x7d);",
    "        \x7d",
    "    \x7d, true);",
    "    document.addEventListener(\"mouseover\", (e) => \x7b",
    "        if (altHeld || labelArmed) send(\"mouseover\", e);",
    "    \x7d, true);",
    "\x7d)();" ]

/-- The names that the other parts use: where events go, the marker, and the class of the overlay
as a literal. -/
def nameLines (ignoreClass : Json) : List String :=
  [ "    const BINDING = \"" ++ eventBinding ++ "\";",
    "    const MARKER = \"" ++ Event.targetMarker ++ "\";",
    "    const IGNORE = " ++ Json.write { asciiOnly := true } ignoreClass ++ ";" ]

/-! ## The whole -/

def lines (ignoreClass : Json) : List String :=
  headLines ++ nameLines ignoreClass ++ stateLines
    ++ [snapshotLines, sendLines, labelLines, shortcutLines, hookLines].flatMap
      fun part => "" :: part

def text (ignoreClass : Json) : String :=
  "\n" ++ String.join ((lines ignoreClass).map fun line => line ++ "\n")

end Retrace.Listener
