/-
The store follows the log.

From the first start on, the store keeps what was written, and what is left to write makes up for
the rest of the log. Doing the first of these writes keeps that, wherever it falls between the moves
of the session; a start or a stop does all of them before it touches the store itself, so nothing of
one recording is left for the next. Where nothing is left to write, the store and the log say the
same.
-/
import Retrace.Proofs.Recording.Tracking

set_option autoImplicit false

namespace Retrace

/-! ## What a store shows -/

namespace Store

/-- What is found under a name when the store is read. -/
def Shows (store : Store) (key : String) (v : Json) : Prop :=
  ∃ data, store.read = (.ok data, []) ∧ need data key = .ok v

/-- The store has the records of the log, and its address. -/
structure Records (store : Store) (log : Log Json) : Prop where
  actions : store.Shows "actions" (.arr (log.toRecords id))
  baseUrl : store.Shows "baseUrl" log.baseUrl

variable {store : Store} {log : Log Json} {recording : Option Json}

/-- What a store holds is what it shows. -/
theorem Holds.shows {fields : Fields} (h : store.Holds fields) {key : String} {v : Json}
    (hv : fields.get? key = some v) : store.Shows key v := by
  refine ⟨_, h.read_eq, ?_⟩
  rw [need, Members.get?_ofFields, hv]

theorem Keeps.records (h : store.Keeps log recording) : store.Records log := by
  obtain ⟨fields, hholds, hactions, hbaseUrl, -⟩ := h
  exact ⟨hholds.shows hactions, hholds.shows hbaseUrl⟩

theorem Keeps.shows {v : Json} (h : store.Keeps log (some v)) : store.Shows "isRecording" v := by
  obtain ⟨fields, hholds, -, -, hrecording⟩ := h
  exact hholds.shows (hrecording v rfl)

end Store

namespace Session

variable {s : Session} {store : Store} {held : Log Json} {recording : Bool} {shown : Option Json}

/-! ## Doing writes -/

/-- **One write.** The store goes on to what the entry makes of its log. -/
theorem exists_write (h : store.Keeps held shown) (hheld : held.Storable) {w : PendingWrite}
    (hw : w.Storable) :
    ∃ later changes, write store w = (later, changes, []) ∧ later.Keeps (held.replay w) shown := by
  obtain ⟨hresult, hnotices, hkeeps⟩ := h.append hheld hw
  refine ⟨_, (store.append w.action w.coalesce w.baseUrl).changes, ?_, hkeeps⟩
  simp [write, hresult, hnotices]

/-- All that is left is written without a notice. -/
theorem exists_writeAll (h : store.Keeps held shown) (hheld : held.Storable)
    {pending : List PendingWrite} (hpending : ∀ w ∈ pending, w.Storable) :
    ∃ later changes, writeAll store pending = (later, changes, [])
      ∧ later.Keeps (pending.foldl Log.replay held) shown := by
  induction pending generalizing store held with
  | nil => exact ⟨store, [], rfl, h⟩
  | cons w rest ih =>
    have hw := hpending w (by simp)
    obtain ⟨next, first, hwrite, hnext⟩ := exists_write h hheld hw
    obtain ⟨later, more, hrest, hlater⟩ :=
      ih hnext (hheld.replay hw) fun w' hw' => hpending w' (by simp [hw'])
    exact ⟨later, first ++ more, by simp [writeAll, hwrite, hrest], hlater⟩

/-- A flush leaves the log as it is, and nothing to write. -/
theorem Tracks.exists_flush (h : s.Tracks store held recording) (hkeeps : store.Keeps held shown) :
    ∃ later changes, s.flush = ({ s with store := some later, pending := [] }, changes, [])
      ∧ ({ s with store := some later, pending := [] } : Session).Tracks later s.log recording
      ∧ later.Keeps s.log shown := by
  obtain ⟨later, changes, hwrite, hlater⟩ := exists_writeAll hkeeps h.storable h.pending
  rw [h.log_eq] at hlater
  refine ⟨later, changes, ?_, ?_, hlater⟩
  · simp only [Session.flush, h.store_eq, hwrite]
  · exact ⟨rfl, h.background, h.log, by simp, rfl, h.recording_eq, h.baseUrl, h.pinned, h.clock⟩

/-! ## Start and end -/

/-- What the store keeps and what is left to write make up the log, and the store says whether the
recording is on. -/
def Converging (s : Session) : Prop :=
  ∃ store held recording, s.Tracks store held recording
    ∧ store.Keeps held (some (.bool recording))

/-- What a start does to the store. -/
def beginning : List (Store → Store.Outcome Unit) :=
  [Store.reset, fun store => store.setRecording (.bool true)]

/-- A store that has begun keeps an empty log, and shows that a recording runs. -/
theorem keeps_beginning (h : (onStore store beginning).result = .ok ()) :
    (onStore store beginning).store.Keeps { baseUrl := .str "" } (some (.bool true)) := by
  cases hreset : store.reset.result with
  | error e => simp [beginning, onStore, hreset] at h
  | ok _ =>
    have hset := (Store.keeps_of_reset hreset).setRecording true
    simpa only [beginning, onStore, hreset, hset.result] using hset.keeps

/-- A store that keeps a log can be begun anew. -/
theorem beginning_of_keeps (h : store.Keeps held shown) :
    (onStore store beginning).result = .ok () := by
  have hreset := h.reset
  have hset := hreset.keeps.setRecording true
  simp only [beginning, onStore, hreset.result, hset.result]

/-- A start does what is left to write, and then begins. -/
theorem start_eq (hstore : s.store = some store) (baseUrl : Json) {o : Store.Outcome Unit}
    (ho : onStore (writeAll store s.pending).1 beginning = o) :
    (s.start baseUrl).result = o.result
      ∧ (o.result = .ok () → (s.start baseUrl).session =
          { s with
            context := { baseUrl, recording := true }, log := { baseUrl := .str "" }
            store := some o.store, pending := [] }) := by
  have hops : onStore (writeAll store s.pending).1
      [Store.reset, fun store => store.setRecording (.bool true)] = o := ho
  unfold Session.start Session.flush
  simp only [hstore, updateStore, hops, true_and]
  intro hok
  rw [hok]
  rfl

/-- **The start.** Whatever the store held and whatever was left to write, a start that succeeds
begins anew. -/
theorem converging_start (hstore : s.store = some store) (hbackground : s.hasBackground = true)
    (hclock : ∀ n, Decimal.unsigned (s.clock.reading n) = s.clock.reading n) {baseUrl : String}
    (h : (s.start (.str baseUrl)).result = .ok ()) :
    (s.start (.str baseUrl)).session.Converging := by
  obtain ⟨hresult, hsession⟩ := start_eq hstore (.str baseUrl) rfl
  rw [h] at hresult
  rw [hsession hresult.symm]
  refine ⟨_, _, true, ?_, keeps_beginning hresult.symm⟩
  exact ⟨rfl, hbackground, .empty, by simp, rfl, rfl, ⟨baseUrl, rfl⟩, by simp, hclock⟩

/-- A recording that runs, or ran, can be started again. -/
theorem Converging.start (h : s.Converging) (baseUrl : String) :
    (s.start (.str baseUrl)).session.Converging := by
  obtain ⟨store, held, recording, htracks, hkeeps⟩ := h
  obtain ⟨later, changes, hwrite, hlater⟩ :=
    exists_writeAll hkeeps htracks.storable htracks.pending
  refine converging_start htracks.store_eq htracks.background htracks.clock ?_
  rw [(start_eq htracks.store_eq (.str baseUrl) rfl).1, hwrite]
  exact beginning_of_keeps hlater

theorem Converging.stop (h : s.Converging) : s.stop.session.Converging := by
  obtain ⟨store, held, recording, htracks, hkeeps⟩ := h
  have hoff : ({ s with context := { s.context with recording := false } } : Session).Tracks
      store held false :=
    ⟨htracks.store_eq, htracks.background, htracks.storable, htracks.pending, htracks.log_eq, rfl,
      htracks.baseUrl, htracks.pinned, htracks.clock⟩
  obtain ⟨later, changes, hflush, hflushed, hlater⟩ := hoff.exists_flush hkeeps
  have hset := hlater.setRecording false
  refine ⟨_, s.log, false, ?_, hset.keeps⟩
  unfold Session.stop
  simp only [hflush, updateStore, onStore, hset.result]
  exact hflushed.withStore _

theorem Converging.flush (h : s.Converging) : s.flush.1.Converging := by
  obtain ⟨store, held, recording, htracks, hkeeps⟩ := h
  obtain ⟨later, changes, hflush, hflushed, hlater⟩ := htracks.exists_flush hkeeps
  rw [hflush]
  exact ⟨later, s.log, recording, hflushed, hlater⟩

/-! ## Turns -/

/-- Does the first of the writes that are left, in the background. -/
def writeNext (s : Session) : Session :=
  match s.store, s.pending with
  | some store, w :: rest => { s with store := some (write store w).1, pending := rest }
  | _, _ => s

/-- A write takes the first of the pending ones to the store. -/
theorem Converging.writeNext (h : s.Converging) : s.writeNext.Converging := by
  obtain ⟨store, held, recording, htracks, hkeeps⟩ := h
  cases hpending : s.pending with
  | nil =>
    have hnone : s.writeNext = s := by simp [Session.writeNext, htracks.store_eq, hpending]
    rw [hnone]
    exact ⟨store, held, recording, htracks, hkeeps⟩
  | cons w rest =>
    have hall := htracks.pending
    rw [hpending] at hall
    have hw := hall w (by simp)
    have hlog := htracks.log_eq
    rw [hpending, List.foldl_cons] at hlog
    obtain ⟨later, changes, hwrite, hlater⟩ := exists_write hkeeps htracks.storable hw
    refine ⟨later, held.replay w, recording, ?_, hlater⟩
    simp only [Session.writeNext, htracks.store_eq, hpending, hwrite]
    exact ⟨rfl, htracks.background, htracks.storable.replay hw,
      fun w' hw' => hall w' (by simp [hw']), hlog, htracks.recording_eq, htracks.baseUrl,
      htracks.pinned, htracks.clock⟩

end Session

/-- A move whose values are texts. -/
def Move.Storable : Move → Prop
  | .start baseUrl => ∃ u, baseUrl = .str u
  | .event e => e.Storable
  | .stop | .flush | .toggle | .skipPagination | .label _ => True

/-- What comes next: a move of the session, or a write in the background. -/
inductive Turn where
  | move (m : Move)
  | write

def Turn.Storable : Turn → Prop
  | .move m => m.Storable
  | .write => True

namespace Session

variable {s : Session}

def take (s : Session) : Turn → Session
  | .move m => s.play m
  | .write => s.writeNext

def takeAll (s : Session) (turns : List Turn) : Session := turns.foldl take s

/-- A move adds to what is pending, or writes all of it. -/
theorem Converging.play (h : s.Converging) {m : Move} (hm : m.Storable) :
    (s.play m).Converging := by
  obtain ⟨store, held, recording, htracks, hkeeps⟩ := h
  cases m with
  | start baseUrl =>
    obtain ⟨u, rfl⟩ := hm
    exact Converging.start ⟨store, held, recording, htracks, hkeeps⟩ u
  | stop => exact Converging.stop ⟨store, held, recording, htracks, hkeeps⟩
  | flush => exact Converging.flush ⟨store, held, recording, htracks, hkeeps⟩
  | event e => exact ⟨store, held, recording, htracks.handle hm, hkeeps⟩
  | toggle => exact ⟨store, held, recording, htracks.toggle, hkeeps⟩
  | skipPagination => exact ⟨store, held, recording, htracks.skipPagination, hkeeps⟩
  | label name => exact ⟨store, held, recording, htracks.assignLabel name, hkeeps⟩

/-- **One turn.** -/
theorem Converging.take (h : s.Converging) {t : Turn} (ht : t.Storable) :
    (s.take t).Converging := by
  cases t with
  | move m => exact h.play ht
  | write => exact h.writeNext

theorem Converging.takeAll (h : s.Converging) {turns : List Turn}
    (hturns : ∀ t ∈ turns, t.Storable) : (s.takeAll turns).Converging := by
  induction turns generalizing s with
  | nil => exact h
  | cons t rest ih =>
    exact ih (h.take (hturns t (by simp))) fun t' ht' => hturns t' (by simp [ht'])

/-! ## Convergence -/

/-- The store of the session says what the session knows, as soon as nothing is left to write. -/
structure Converged (s : Session) (store : Store) : Prop where
  store_eq : s.store = some store
  recording : store.Shows "isRecording" (.bool s.context.recording)
  settled : s.pending = [] → store.Records s.log
  replayed : ∃ later changes, writeAll store s.pending = (later, changes, []) ∧ later.Records s.log

/-- Whatever is pending, the store ends up with the log once it is written. -/
theorem Converging.exists_converged (h : s.Converging) : ∃ store, s.Converged store := by
  obtain ⟨store, held, recording, htracks, hkeeps⟩ := h
  obtain ⟨later, changes, hwrite, hlater⟩ :=
    exists_writeAll hkeeps htracks.storable htracks.pending
  rw [htracks.log_eq] at hlater
  refine ⟨store, htracks.store_eq, ?_, ?_, later, changes, hwrite, hlater.records⟩
  · rw [htracks.recording_eq]
    exact hkeeps.shows
  · intro hpending
    obtain ⟨rfl, -⟩ : later = store ∧ _ := by
      rw [hpending] at hwrite
      exact ⟨(Prod.mk.inj hwrite).1.symm, trivial⟩
    exact hlater.records

/-- **The store follows the log.** A session that can leave work for later, and whose clock never
shows a negative zero, is started with success. Then at any time, wherever the writes fell between
the moves, the store says whether the recording is on; what is left to write can be written; and
then the store has the records of the log and its address. -/
theorem converged_takeAll {store : Store} (hstore : s.store = some store)
    (hbackground : s.hasBackground = true) (hclock : ∀ n, s.clock.reading n ≠ -0.0)
    {baseUrl : String} (hstart : (s.start (.str baseUrl)).result = .ok ()) {turns : List Turn}
    (hturns : ∀ t ∈ turns, t.Storable) :
    ∃ present, ((s.start (.str baseUrl)).session.takeAll turns).Converged present := by
  have hunsigned : ∀ n, Decimal.unsigned (s.clock.reading n) = s.clock.reading n :=
    fun n => Decimal.unsigned_eq_self (hclock n)
  have hconverging := converging_start hstore hbackground hunsigned hstart
  exact (hconverging.takeAll hturns).exists_converged

/-- A page with a field in it. -/
def fieldPage : Page := Page.empty.push "input" [("id", "name")] none

/-- A text is put into the field. -/
def filling (text : String) : Event :=
  { type := .input, page := fieldPage, target := some 0, value := some (.str text) }

theorem storable_filling (text : String) : (filling text).Storable := by
  refine ⟨by simp [filling], by simp [filling], ?_⟩
  rintro _ ⟨⟩
  show fieldPage.tag 0 ≠ ""
  decide

/-- The field is filled in twice, and the writes of that come late: one in the background, one at
the end of the recording. Then a recording starts anew, and its only write is left. -/
def lateTurns : List Turn :=
  [.move (.event (filling "A")), .move (.event (filling "Ada")), .write, .move .stop,
    .move (.start (.str "")), .move (.event (filling "Bea"))]

/-- A session with an empty store. -/
def freshSession : Session := fresh {} (.ofList [1.0, 2.0]) (some .emptyMemory) true

theorem converged_takeAll_late :
    (∀ n, freshSession.clock.reading n ≠ -0.0)
      ∧ (freshSession.start (.str "https://example.org/")).result = .ok ()
      ∧ (∀ t ∈ lateTurns, t.Storable)
      ∧ ∃ present, ((freshSession.start (.str "https://example.org/")).session.takeAll
          lateTurns).Converged present := by
  have hclock : ∀ n, freshSession.clock.reading n ≠ -0.0 := by
    rintro (_ | _ | n)
    · show (1.0 : Float) ≠ -0.0
      decide
    all_goals
      show (2.0 : Float) ≠ -0.0
      decide
  have hturns : ∀ t ∈ lateTurns, t.Storable := by
    simp [lateTurns, Turn.Storable, Move.Storable, storable_filling]
  exact ⟨hclock, rfl, hturns, converged_takeAll rfl rfl hclock rfl hturns⟩

/-- There the store is one write behind the log. -/
example :
    let s := (freshSession.start (.str "https://example.org/")).session.takeAll lateTurns
    s.log.actions.length = 1 ∧ s.pending.length = 1 := by decide +kernel

end Session

end Retrace
