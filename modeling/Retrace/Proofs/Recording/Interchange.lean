/-
A store in memory and a store in a file are interchangeable.

The one keeps values, the other their text, which is read anew for every operation. The two are
related if the file is read as what the memory holds (`Twins`): the data of a file that is not there
yet is what an empty memory holds, and what an edit puts into the file is read back from it
(`Edit.read_put`). From the same data the two do the same, whether it succeeds or fails, since a
write of a file cannot fail while its actions are a list.

The text of the file is all that the file store keeps, so whoever opens the file finds the same
data.

That a write cannot fail depends on what a text is. A text is a row of scalar values, and UTF-8 can
hold each of them; a half of a character on its own, which no file can hold, is in no text.
-/
import Retrace.Proofs.Recording.Edit

set_option autoImplicit false

namespace Retrace.Store

/-! ## Operations and what is seen of them -/

/-- What can be asked of a store. -/
inductive Op where
  | edit (e : Edit)
  | load
  | loadLog

/-- What an operation hands back. -/
inductive Reply where
  | done
  | data (found : Json)
  | log (found : Log Json)

/-- What is seen of an operation: its reply or why it failed, and all that it tells, in order. -/
structure Seen where
  reply : Except Error Reply
  changes : List Change
  notices : List Notice

def Outcome.seen {α : Type} (reply : α → Reply) (o : Outcome α) : Seen :=
  ⟨reply <$> o.result, o.changes, o.notices⟩

namespace Op

def seen (store : Store) : Op → Seen
  | .edit e => (e.run store).seen fun _ => .done
  | .load => store.load.seen .data
  | .loadLog => store.loadLog.seen .log

def next (store : Store) : Op → Store
  | .edit e => (e.run store).store
  | .load => store.load.store
  | .loadLog => store.loadLog.store

/-- What is seen of the operations, one after the other. -/
def seenAll (store : Store) : List Op → List Seen
  | [] => []
  | op :: rest => op.seen store :: seenAll (op.next store) rest

/-- The store after the operations. -/
def after (store : Store) (ops : List Op) : Store := ops.foldl next store

/-- The values that the operation brings fit into a file. -/
def Fits : Op → Prop
  | .edit e => e.Fits
  | .load | .loadLog => True

end Op

/-! ## One step -/

/-- An operation that leaves the store alone. -/
def ask {α : Type} (store : Store) (answer : Data → Except Error α) : Outcome α :=
  store.withData fun data => { store, result := answer data }

/-- A store in memory and one in a file that is read as what the memory holds, whatever its path. -/
inductive Twins (path : String) : Store → Store → Prop where
  | same {fields : Fields} {text : Option String}
    (hread : ∀ path, (Store.file path text).read = (.ok (.members (.ofFields fields)), []))
    (hsized : checkSize (.obj fields) = .ok ()) :
    Twins path (.memory (.obj fields)) (.file path text)

/-- A file that is not there yet is read as what an empty memory holds. -/
theorem twins_empty (path : String) : Twins path emptyMemory (.file path none) :=
  .same (fun _ => rfl) rfl

namespace Twins

variable {path : String} {memory file : Store}

theorem read_eq (h : Twins path memory file) : memory.read = file.read := by
  cases h with
  | same hread => exact (hread path).symm

theorem load_eq (h : Twins path memory file) :
    ∃ data text, memory.load.result = .ok data ∧ file = .file path text
      ∧ ∀ path, (Store.file path text).load.result = .ok data := by
  cases h with
  | @same fields text hread =>
    exact ⟨.obj fields, text, Store.load_eq rfl, rfl, fun path => Store.load_eq (hread path)⟩

/-- What is asked of the data alone is answered alike. -/
theorem ask (h : Twins path memory file) {α : Type} (answer : Data → Except Error α)
    (reply : α → Reply) :
    (memory.ask answer).seen reply = (file.ask answer).seen reply
      ∧ Twins path (memory.ask answer).store (file.ask answer).store := by
  unfold Store.ask Store.withData
  rw [h.read_eq]
  rcases file.read with ⟨found, notices⟩
  cases found with
  | error why => exact ⟨rfl, h⟩
  | ok data => exact ⟨rfl, h⟩

/-- An edit is refused by both stores, or done in both. -/
theorem edit (h : Twins path memory file) {e : Edit} (he : e.Fits) :
    ((e.run memory).seen fun _ => .done) = ((e.run file).seen fun _ => .done)
      ∧ Twins path (e.run memory).store (e.run file).store := by
  cases h with
  | @same fields text hread hsized =>
    cases hchanges : e.changes (.members (.ofFields fields)) with
    | error why =>
      have hrefused : ∀ store : Store, store.read = (.ok (.members (.ofFields fields)), []) →
          e.run store = { store, result := .error why } := by
        intro store hstore
        rw [Edit.run_eq, withData, hstore]
        simp [hchanges]
      rw [hrefused _ rfl, hrefused _ (hread path)]
      exact ⟨rfl, .same hread hsized⟩
    | ok changes =>
      -- the file can only refuse for want of a number of actions, and these stay a list
      have hsized' : checkSize (.obj (fields.merge changes)) = .ok () := by
        rw [Edit.checkSize_merge hchanges, hsized, ite_self]
      have hmemory : (Store.memory (.obj fields)).read = (.ok (.members (.ofFields fields)), []) :=
        rfl
      rw [Edit.run_of_ok hmemory hchanges rfl, Edit.run_of_ok (hread path) hchanges hsized']
      exact ⟨rfl, .same (fun path => Edit.read_put (hread path) he hchanges) hsized'⟩

/-- **One operation.** It is answered alike, and what is kept stays the same. -/
theorem step (h : Twins path memory file) {op : Op} (hop : op.Fits) :
    op.seen memory = op.seen file ∧ Twins path (op.next memory) (op.next file) := by
  cases op with
  | edit e => exact h.edit hop
  | load => exact h.ask (fun data => .ok data.toJson) .data
  | loadLog => exact h.ask logOf .log

/-! ## Runs -/

/-- From stores that keep the same, all that is asked of them is answered alike. -/
theorem run (h : Twins path memory file) {ops : List Op} (hops : ∀ op ∈ ops, op.Fits) :
    Op.seenAll memory ops = Op.seenAll file ops
      ∧ Twins path (Op.after memory ops) (Op.after file ops) := by
  induction ops generalizing memory file with
  | nil => exact ⟨rfl, h⟩
  | cons op rest ih =>
    obtain ⟨hop, hrest⟩ := List.forall_mem_cons.1 hops
    obtain ⟨hseen, hnext⟩ := h.step hop
    obtain ⟨hall, hafter⟩ := ih hnext hrest
    exact ⟨by rw [Op.seenAll, Op.seenAll, hseen, hall], hafter⟩

end Twins

/-- **The stores are interchangeable.** Whatever is asked of them, an empty memory and a file that
is not there yet answer and tell the same at every step. Both hold the same data then, and so does
any store that is opened on what is in the file. All texts in question are rows of scalar values. -/
theorem interchangeable (path : String) {ops : List Op} (hops : ∀ op ∈ ops, op.Fits) :
    Op.seenAll emptyMemory ops = Op.seenAll (.file path none) ops
      ∧ ∃ data text, (Op.after emptyMemory ops).load.result = .ok data
        ∧ Op.after (.file path none) ops = .file path text
        ∧ ∀ path, (Store.file path text).load.result = .ok data := by
  obtain ⟨hseen, hafter⟩ := (twins_empty path).run hops
  exact ⟨hseen, hafter.load_eq⟩

/-- An action without a locator, a word that is typed in two steps and coalesced, and the end. -/
def typing : List Op := [
  .edit (.setRecording (.bool true)),
  .edit (.append { kind := .click, locator := "" } false (.str "https://example.org/")),
  .edit (.append { kind := .input, locator := "#q", value := some (.str "a"), timestamp := 1.0 }
    true (.str "https://example.org/")),
  .edit (.append { kind := .input, locator := "#q", value := some (.str "ab"), timestamp := 2.0 }
    true (.str "https://example.org/")),
  .loadLog, .edit .reset, .edit (.setRecording (.bool false)), .load]

theorem interchangeable_typing :
    Op.seenAll emptyMemory typing = Op.seenAll (.file "actions.json" none) typing
      ∧ ∃ data text, (Op.after emptyMemory typing).load.result = .ok data
        ∧ Op.after (.file "actions.json" none) typing = .file "actions.json" text
        ∧ ∀ path, (Store.file path text).load.result = .ok data := by
  refine interchangeable "actions.json" ?_
  simp [typing, Op.Fits, Edit.Fits, Json.Fits.str, Json.Fits.bool]

end Retrace.Store
