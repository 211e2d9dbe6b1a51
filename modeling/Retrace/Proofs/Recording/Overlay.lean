/-
What happens on the overlay leaves no trace.

The recorder lays an overlay of its own over the page. A click, a change or a movement of the
pointer on the overlay takes the highlights away and may bring an address, and leaves all else of
the session as it is. Neither is looked at again where events and controls decide (`Session.core`),
but the address is stored; so two sessions of which one was spared such events are compared together
with their stores (`Session.Alike`).

Either nothing tells the two apart but the highlights, or the recording began under an address that
says nothing, and each page may have brought another. Then all addresses in play fit anywhere, and
the stores go on alike. The next start that succeeds makes them one again.
-/
import Retrace.Proofs.Recording.Address
import Retrace.Proofs.Recording.Convergence
import Retrace.Proofs.Recording.Core
import Retrace.Proofs.Recording.Growth

set_option autoImplicit false

namespace Retrace

/-! ## Events on the overlay -/

/-- A click, a change or a movement of the pointer on an element of the overlay, or in one. -/
def Event.OnOverlay (e : Event) (settings : Settings) : Prop :=
  (e.type = .click ∨ e.type = .input ∨ e.type = .change ∨ e.type = .mouseOver)
    ∧ ∃ i, e.target = some i ∧ Interaction.isIgnored settings e.page i = true

namespace Session

/-- What falls on the overlay leaves at most an address behind, and takes the highlights away. -/
theorem core_handle_of_onOverlay {s : Session} {event : Event}
    (h : event.OnOverlay s.settings) : (s.handle event).session.core = s.core := by
  obtain ⟨htype, i, htarget, hignored⟩ := h
  have hnone : event.target.filter (fun i => !Interaction.isIgnored s.settings event.page i)
      = none := by
    rw [htarget, Option.filter_some, hignored]
    rfl
  have hnoted := s.core_noteUrl event.url
  rw [← s.noteUrl_settings event.url] at hnone
  unfold handle
  split
  · rfl
  · dsimp only
    generalize s.noteUrl event.url = noted at hnoted hnone ⊢
    rcases htype with htype | htype | htype | htype
    all_goals
      rw [htype]
      dsimp only [hovered]
      rw [hnone]
      exact hnoted


/-! ## Two sessions -/

/-- While a recording is on, its address fits anywhere, and so do those of the writes that are
left. -/
structure Loose (s : Session) : Prop where
  address : s.context.recording = true → s.context.baseUrl.Fits 1
  pending : ∀ w ∈ s.pending, w.baseUrl.Fits 1

/-- How the addresses and the stores of two sessions belong together. -/
inductive Linked (s t : Session) : Prop where
  | same (hbaseUrl : s.context.baseUrl = t.context.baseUrl) (hpending : s.pending = t.pending)
    (hstore : s.store = t.store)
    (hfits : s.context.baseUrl.Fits 1 → ∀ w ∈ s.pending, w.baseUrl.Fits 1)
  | loose (hs : s.Loose) (ht : t.Loose) (hstore : Option.Rel Store.Alike s.store t.store)

/-- Two sessions that go on alike. -/
structure Alike (s t : Session) : Prop where
  core : s.core = t.core
  linked : Linked s t

variable {s t : Session}

theorem Alike.recording (h : Alike s t) : s.context.recording = t.context.recording :=
  (congrArg (fun s => (Session.context s).recording) h.core :)

theorem Alike.settings (h : Alike s t) : s.settings = t.settings :=
  (congrArg Session.settings h.core :)

theorem Alike.context (h : Alike s t) : s.context.core = t.context.core :=
  (congrArg Session.context h.core :)

theorem Alike.actions (h : Alike s t) : s.log.actions = t.log.actions :=
  (congrArg (fun s => (Session.log s).actions) h.core :)

theorem Alike.store (h : Alike s t) : Option.Rel Store.Alike s.store t.store := by
  cases h.linked with
  | same _ _ hstore _ =>
    rw [hstore]
    cases t.store with
    | none => exact .none
    | some store => exact .some (.same store)
  | loose _ _ hstore => exact hstore

/-! ## The address -/

theorem Loose.noteUrl (h : s.Loose) (url : String) : (s.noteUrl url).Loose := by
  unfold Session.noteUrl
  split
  · exact ⟨fun _ => .str url, h.pending⟩
  · exact h

/-- Both sessions hear of the address. -/
theorem Linked.noteUrl (h : Linked s t) (url : String) :
    Linked (s.noteUrl url) (t.noteUrl url) := by
  cases h with
  | same hbaseUrl hpending hstore hfits =>
    unfold Session.noteUrl
    rw [hbaseUrl]
    split
    · next hnew =>
      have hold : s.context.baseUrl.Fits 1 := by
        rw [hbaseUrl]
        exact Json.fits_of_not_truthy (by simpa using (Bool.and_eq_true_iff.1 hnew).2)
      exact .same rfl hpending hstore fun _ => hfits hold
    · exact .same hbaseUrl hpending hstore hfits
  | loose hs ht hstore =>
    exact .loose (hs.noteUrl url) (ht.noteUrl url) (by simpa using hstore)

/-- Only the first session hears of the address. -/
theorem Linked.noteUrl_left (h : Linked s t) (url : String) : Linked (s.noteUrl url) t := by
  unfold Session.noteUrl
  split
  · next hnew =>
    cases h with
    | same hbaseUrl hpending hstore hfits =>
      have hold : s.context.baseUrl.Fits 1 :=
        Json.fits_of_not_truthy (by simpa using (Bool.and_eq_true_iff.1 hnew).2)
      have hstores : Option.Rel Store.Alike s.store t.store := by
        rw [hstore]
        cases t.store with
        | none => exact .none
        | some store => exact .some (.same store)
      exact .loose ⟨fun _ => .str url, hfits hold⟩
        ⟨fun _ => hbaseUrl ▸ hold, hpending ▸ hfits hold⟩ hstores
    | loose hs ht hstore => exact .loose ⟨fun _ => .str url, hs.pending⟩ ht hstore
  · exact h

/-! ## What is left to write -/

/-- A write without its address. -/
def bare (w : PendingWrite) : PendingWrite := { w with baseUrl := .str "" }

theorem Alike.pending (h : Alike s t) : s.pending.map bare = t.pending.map bare :=
  (congrArg Session.pending h.core :)

/-- Writes under one address that are the same without it are the same. -/
theorem eq_of_map_bare {u : Json} {added added' : List PendingWrite}
    (h : added.map bare = added'.map bare) (hadded : ∀ w ∈ added, w.baseUrl = u)
    (hadded' : ∀ w ∈ added', w.baseUrl = u) : added = added' := by
  have hback : ∀ ws : List PendingWrite, (∀ w ∈ ws, w.baseUrl = u) →
      (ws.map bare).map (fun w => { w with baseUrl := u }) = ws := by
    intro ws hws
    rw [List.map_map]
    refine (List.map_congr_left fun w hw => ?_).trans (List.map_id ws)
    rw [Function.comp_apply, bare, ← hws w hw]
    rfl
  rw [← hback added hadded, h, hback added' hadded']

/-- While both sessions record, they go on alike with what leaves them the same core. -/
theorem Linked.worked (h : Linked s t) (hrecording : s.context.recording = true)
    (hrecording' : t.context.recording = true) {s' t' : Session} (hs : Worked s s')
    (ht : Worked t t') (hcore : s'.core = t'.core) : Linked s' t' := by
  obtain ⟨added, hadded, haddress⟩ := hs.pending
  obtain ⟨added', hadded', haddress'⟩ := ht.pending
  cases h with
  | same hbaseUrl hpending hstore hfits =>
    have hbare : s'.pending.map bare = t'.pending.map bare := (congrArg Session.pending hcore :)
    rw [hadded, hadded', hpending, List.map_append, List.map_append] at hbare
    have heq := eq_of_map_bare (List.append_cancel_left hbare) haddress
      fun w hw => (haddress' w hw).trans hbaseUrl.symm
    refine .same (by rw [hs.baseUrl, hbaseUrl, ht.baseUrl]) (by rw [hadded, hadded', hpending, heq])
      (by rw [hs.store, hstore, ht.store]) fun hfit w hw => ?_
    rw [hs.baseUrl] at hfit
    rw [hadded] at hw
    rcases List.mem_append.1 hw with hw | hw
    · exact hfits hfit w hw
    · exact haddress w hw ▸ hfit
  | loose hloose hloose' hstore =>
    have hkept : ∀ {s s' : Session}, s.Loose → s.context.recording = true → Worked s s' →
        s'.Loose := by
      intro s s' hloose hrecording hworked
      obtain ⟨added, hadded, haddress⟩ := hworked.pending
      have hfit := hloose.address hrecording
      refine ⟨fun _ => hworked.baseUrl ▸ hfit, fun w hw => ?_⟩
      rw [hadded] at hw
      rcases List.mem_append.1 hw with hw | hw
      · exact hloose.pending w hw
      · exact haddress w hw ▸ hfit
    refine .loose (hkept hloose hrecording hs) (hkept hloose' hrecording' ht) ?_
    rwa [hs.store, ht.store]

/-- A write is done alike. -/
theorem Store.Alike.write {store other : Store} (h : store.Alike other) {p q : PendingWrite}
    (hpq : bare p = bare q) (hp : p.baseUrl.Fits 1) (hq : q.baseUrl.Fits 1) :
    (write store p).1.Alike (write other q).1 := by
  have haction : p.action = q.action := (congrArg PendingWrite.action hpq :)
  have hcoalesce : p.coalesce = q.coalesce := (congrArg PendingWrite.coalesce hpq :)
  have happend := (h.append p.action p.coalesce hp hq).store
  unfold Session.write
  rwa [← haction, ← hcoalesce]

/-- Doing all that is left, under addresses that fit anywhere. -/
theorem alike_writeAll {store other : Store} (h : store.Alike other) {ps qs : List PendingWrite}
    (hpq : ps.map bare = qs.map bare) (hps : ∀ w ∈ ps, w.baseUrl.Fits 1)
    (hqs : ∀ w ∈ qs, w.baseUrl.Fits 1) : (writeAll store ps).1.Alike (writeAll other qs).1 := by
  induction ps generalizing store other qs with
  | nil =>
    obtain rfl : qs = [] := by simpa using hpq.symm
    exact h
  | cons p ps ih =>
    cases qs with
    | nil => simp at hpq
    | cons q qs =>
      obtain ⟨hfirst, hrest⟩ := List.cons.inj hpq
      have hwrite := Store.Alike.write h hfirst (hps p (by simp)) (hqs q (by simp))
      exact ih hwrite hrest (fun w hw => hps w (by simp [hw])) fun w hw => hqs w (by simp [hw])

/-- The store once all that is left is written. -/
def written (s : Session) : Option Store := s.store.map fun store => (writeAll store s.pending).1

theorem flush_eq (s : Session) : s.flush.1 = { s with store := s.written, pending := [] } := by
  unfold flush written
  cases hstore : s.store <;> rfl

theorem Alike.written (h : Alike s t) : Option.Rel Store.Alike s.written t.written := by
  unfold Session.written
  cases h.linked with
  | same hbaseUrl hpending hstore hfits =>
    rw [hpending, hstore]
    cases t.store with
    | none => exact .none
    | some store => exact .some (.same _)
  | loose hs ht hstore =>
    generalize s.store = store at hstore ⊢
    generalize t.store = store' at hstore ⊢
    cases hstore with
    | none => exact .none
    | some hstore => exact .some (alike_writeAll hstore h.pending hs.pending ht.pending)

/-- The store counts by whether there is one, and of the log the actions do. -/
theorem core_withStore (h : s.core = t.core) {context context' : Context}
    (hcontext : context.core = context'.core) {log log' : Log Json}
    (hlog : log.actions = log'.actions) {store store' : Option Store}
    (hstore : Option.Rel Store.Alike store store') {pending pending' : List PendingWrite}
    (hpending : pending.map bare = pending'.map bare) :
    ({ s with context, log, store, pending } : Session).core
      = ({ t with context := context', log := log', store := store', pending := pending' }
          : Session).core := by
  have hpresent : (store.map fun _ => Store.emptyMemory)
      = store'.map fun _ => Store.emptyMemory := by
    cases hstore <;> rfl
  unfold core at h ⊢
  simp only [Session.mk.injEq] at h ⊢
  obtain ⟨hsettings, -, -, hclock, -, -, hbackground⟩ := h
  refine ⟨hsettings, hcontext, ?_, hclock, hpresent, hpending, hbackground⟩
  rw [hlog]

theorem Alike.flush (h : Alike s t) : Alike s.flush.1 t.flush.1 := by
  rw [flush_eq, flush_eq]
  refine ⟨core_withStore h.core h.context h.actions h.written rfl, ?_⟩
  cases h.linked with
  | same hbaseUrl hpending hstore hfits =>
    refine .same hbaseUrl rfl ?_ (by simp)
    show s.written = t.written
    unfold Session.written
    rw [hpending, hstore]
  | loose hs ht _ =>
    exact .loose ⟨hs.address, by simp⟩ ⟨ht.address, by simp⟩ h.written

/-- Both sessions have a write left, and do it. -/
theorem Alike.write (h : Alike s t) {store other : Store} {p q : PendingWrite}
    {ps qs : List PendingWrite} (hs : s.store = some store) (ht : t.store = some other)
    (hp : s.pending = p :: ps) (hq : t.pending = q :: qs) :
    Alike { s with store := some (Session.write store p).1, pending := ps }
      { t with store := some (Session.write other q).1, pending := qs } := by
  have hpending := h.pending
  rw [hp, hq] at hpending
  obtain ⟨hfirst, hrest⟩ := List.cons.inj hpending
  cases h.linked with
  | same hbaseUrl hpq hstore hfits =>
    rw [hp, hq] at hpq
    rw [hs, ht] at hstore
    obtain ⟨rfl, rfl⟩ := List.cons.inj hpq
    obtain rfl := Option.some.inj hstore
    have hwritten : Option.Rel Store.Alike (some (Session.write store p).1)
      (some (Session.write store p).1) := .some (.same _)
    refine ⟨core_withStore h.core h.context h.actions hwritten hrest,
      .same hbaseUrl rfl rfl fun hfit w hw => ?_⟩
    exact hfits hfit w (by rw [hp]; exact List.mem_cons_of_mem p hw)
  | loose hloose hloose' hstore =>
    rw [hs, ht] at hstore
    have hp' := hloose.pending
    have hq' := hloose'.pending
    rw [hp] at hp'
    rw [hq] at hq'
    cases hstore with
    | some hstore =>
      have hwritten : Option.Rel Store.Alike (some (Session.write store p).1)
          (some (Session.write other q).1) :=
        .some (Store.Alike.write hstore hfirst (hp' p (by simp)) (hq' q (by simp)))
      exact ⟨core_withStore h.core h.context h.actions hwritten hrest,
        .loose ⟨hloose.address, fun w hw => hp' w (by simp [hw])⟩
          ⟨hloose'.address, fun w hw => hq' w (by simp [hw])⟩ hwritten⟩

/-- One session has a store and a write left just if the other one has. -/
theorem Alike.writeNext (h : Alike s t) : Alike s.writeNext t.writeNext := by
  have hpending := h.pending
  have hstores := h.store
  unfold Session.writeNext
  cases hs : s.store with
  | none =>
    rw [hs] at hstores
    cases ht : t.store with
    | none => exact h
    | some other => rw [ht] at hstores; cases hstores
  | some store =>
    cases ht : t.store with
    | none => rw [hs, ht] at hstores; cases hstores
    | some other =>
      cases hp : s.pending with
      | nil =>
        rw [hp] at hpending
        rw [List.map_eq_nil_iff.1 hpending.symm]
        exact h
      | cons p ps =>
        cases hq : t.pending with
        | nil => rw [hp, hq] at hpending; cases hpending
        | cons q qs => exact h.write hs ht hp hq

/-! ## Start and end -/

/-- What a start leads to: the writes that are left are done, and then the store is made ready. -/
theorem start_eq_written (s : Session) (baseUrl : Json) :
    (s.start baseUrl).result
        = (s.written.elim (.ok ()) fun store => (onStore store beginning).result)
      ∧ (s.start baseUrl).session =
        { s with
          context := { baseUrl, recording := (s.start baseUrl).result.isOk }
          log := { baseUrl := .str "" }
          store := s.written.map fun store => (onStore store beginning).store
          pending := [] } := by
  obtain ⟨settings, context, log, clock, store, pending, hasBackground⟩ := s
  cases store with
  | none => exact ⟨rfl, rfl⟩
  | some store =>
    have hops : ([Store.reset, fun store => store.setRecording (.bool true)] :
      List (Store → Store.Outcome Unit)) = beginning := rfl
    unfold Session.start Session.flush written
    simp only [updateStore, Option.map_some, Option.elim_some, hops, true_and]
    cases (onStore (writeAll store pending).1 beginning).result <;> rfl

theorem alike_beginning {store other : Store} (h : store.Alike other) :
    (onStore store beginning).Alike (onStore other beginning)
      ∧ ((onStore store beginning).result = .ok () →
        (onStore store beginning).store = (onStore other beginning).store) := by
  have hresult := h.reset.result
  unfold beginning onStore
  dsimp only
  rw [← hresult]
  cases hreset : store.reset.result with
  | error e => exact ⟨⟨h.reset.store, hresult⟩, fun hok => by rw [hreset] at hok; cases hok⟩
  | ok _ =>
    rw [h.reset_eq hreset]
    exact ⟨⟨.same _, rfl⟩, fun _ => rfl⟩

theorem Alike.start (h : Alike s t) (baseUrl : Json) :
    (s.start baseUrl).result = (t.start baseUrl).result
      ∧ Alike (s.start baseUrl).session (t.start baseUrl).session := by
  obtain ⟨hresult, hsession⟩ := start_eq_written s baseUrl
  obtain ⟨hresult', hsession'⟩ := start_eq_written t baseUrl
  have hwritten := h.written
  generalize s.written = store at hresult hsession hwritten
  generalize t.written = other at hresult' hsession' hwritten
  have hresults : (s.start baseUrl).result = (t.start baseUrl).result := by
    rw [hresult, hresult']
    cases hwritten with
    | none => rfl
    | some hstore => exact (alike_beginning hstore).1.result
  have hstores : Option.Rel Store.Alike
      (store.map fun store => (onStore store beginning).store)
      (other.map fun store => (onStore store beginning).store) := by
    cases hwritten with
    | none => exact .none
    | some hstore => exact .some (alike_beginning hstore).1.store
  refine ⟨hresults, ?_⟩
  rw [hsession, hsession', ← hresults]
  refine ⟨core_withStore h.core rfl rfl hstores rfl, ?_⟩
  cases hok : (s.start baseUrl).result with
  | error e =>
    -- no recording is on, so the address does not count yet
    exact .loose ⟨by simp [Except.isOk, Except.toBool], by simp⟩
      ⟨by simp [Except.isOk, Except.toBool], by simp⟩ hstores
  | ok _ =>
    refine .same rfl rfl ?_ (by simp)
    rw [hok] at hresult
    cases hwritten with
    | none => rfl
    | some hstore => exact congrArg some ((alike_beginning hstore).2 hresult.symm)

/-- What a stop leads to. -/
theorem stop_eq_written (s : Session) :
    s.stop.result = (s.written.elim (.ok ()) fun store =>
        (store.setRecording (.bool false)).result).map (fun _ => s.log.actions)
      ∧ s.stop.session =
        { s with
          context := { s.context with recording := false }
          store := s.written.map fun store => (store.setRecording (.bool false)).store
          pending := [] } := by
  obtain ⟨settings, context, log, clock, store, pending, hasBackground⟩ := s
  cases store with
  | none => exact ⟨rfl, rfl⟩
  | some store =>
    unfold Session.stop Session.flush written
    simp only [updateStore, Option.map_some, Option.elim_some, onStore]
    cases hresult : ((writeAll store pending).1.setRecording (.bool false)).result with
    | error e => exact ⟨congrArg (Except.map fun _ => log.actions) hresult, rfl⟩
    | ok _ => exact ⟨rfl, rfl⟩

theorem Alike.stop (h : Alike s t) :
    s.stop.result = t.stop.result ∧ Alike s.stop.session t.stop.session := by
  obtain ⟨hresult, hsession⟩ := stop_eq_written s
  obtain ⟨hresult', hsession'⟩ := stop_eq_written t
  have hwritten := h.written
  rw [hresult, hresult', hsession, hsession', h.actions]
  generalize s.written = store at hwritten ⊢
  generalize t.written = other at hwritten ⊢
  have hstores : Option.Rel Store.Alike
      (store.map fun store => (store.setRecording (.bool false)).store)
      (other.map fun store => (store.setRecording (.bool false)).store) := by
    cases hwritten with
    | none => exact .none
    | some hstore => exact .some (hstore.setRecording (.bool false)).store
  have hcontext : ({ s.context with recording := false } : Context).core
      = ({ t.context with recording := false } : Context).core :=
    (congrArg (fun context : Context => { context with recording := false }) h.context :)
  refine ⟨?_, core_withStore h.core hcontext h.actions hstores rfl,
    .loose ⟨by simp, by simp⟩ ⟨by simp, by simp⟩ hstores⟩
  cases hwritten with
  | none => rfl
  | some hstore =>
    exact congrArg (Except.map fun _ => t.log.actions) (hstore.setRecording (.bool false)).result

/-! ## One move -/

/-- What a step of a run gives back. -/
inductive Answer where
  | nothing
  | started (result : Except Store.Error Unit)
  | stopped (result : Except Store.Error (List (Action Json)))
  | heard (result : Except Selector.SyntaxError (Option (Action Json)))
  | made (action : Option (Action Json))

def answer (s : Session) : Turn → Answer
  | .move (.start baseUrl) => .started (s.start baseUrl).result
  | .move .stop => .stopped s.stop.result
  | .move (.event event) => .heard (s.handle event).result
  | .move .toggle => .made s.toggle.2.1
  | .move (.label name) => .made (s.assignLabel name).2.1
  | .move .flush | .move .skipPagination | .write => .nothing

/-- Without a recording, an event or a control does nothing. -/
theorem handle_of_not_recording (h : s.context.recording = false) (event : Event) :
    (s.handle event).session = s := by
  unfold Session.handle
  simp only [h, Bool.not_false, if_true]
  rfl

/-- An event that both sessions hear. -/
theorem Alike.handle (h : Alike s t) (event : Event) :
    (s.handle event).result = (t.handle event).result
      ∧ Alike (s.handle event).session (t.handle event).session := by
  have hcore : (s.handle event).core = (t.handle event).core := by
    rw [← core_handle s, h.core, core_handle t]
  obtain ⟨hresult, hsession⟩ := Prod.mk.inj hcore
  refine ⟨hresult, hsession, ?_⟩
  have hworked := worked_handle s event
  have hworked' := worked_handle t event
  cases hrecording : s.context.recording with
  | false =>
    rw [handle_of_not_recording hrecording,
      handle_of_not_recording (h.recording.symm.trans hrecording)]
    exact h.linked
  | true =>
    have hrecording' : t.context.recording = true := h.recording.symm.trans hrecording
    rw [hrecording, if_pos rfl] at hworked
    rw [hrecording', if_pos rfl] at hworked'
    exact (h.linked.noteUrl event.url).worked (by rw [noteUrl_recording, hrecording])
      (by rw [noteUrl_recording, hrecording']) hworked hworked' hsession

/-- The link is one of addresses and stores. -/
theorem Linked.congr_left {s' : Session} (h : Linked s t)
    (hrecording : s'.context.recording = s.context.recording)
    (hbaseUrl : s'.context.baseUrl = s.context.baseUrl) (hpending : s'.pending = s.pending)
    (hstore : s'.store = s.store) : Linked s' t := by
  cases h with
  | same hb hp hs hfits =>
    exact .same (hbaseUrl.trans hb) (hpending.trans hp) (hstore.trans hs)
      (by rwa [hbaseUrl, hpending])
  | loose hs ht hst =>
    exact .loose
      ⟨by rw [hrecording, hbaseUrl]; exact hs.address, by rw [hpending]; exact hs.pending⟩
      ht (by rwa [hstore])

/-- An event on the overlay that only the first session hears. -/
theorem Alike.handle_onOverlay (h : Alike s t) {event : Event}
    (hevent : event.OnOverlay s.settings) : Alike (s.handle event).session t := by
  have hcore := core_handle_of_onOverlay hevent
  refine ⟨hcore.trans h.core, ?_⟩
  cases hrecording : s.context.recording with
  | false =>
    rw [handle_of_not_recording hrecording]
    exact h.linked
  | true =>
    have hworked := worked_handle s event
    rw [hrecording, if_pos rfl] at hworked
    have hnoted := core_noteUrl s event.url
    obtain ⟨added, hadded, -⟩ := hworked.pending
    -- the writes that are left are no more than before
    have hnone : added = [] := by
      have hbare : (s.handle event).session.pending.map bare
          = (s.noteUrl event.url).pending.map bare :=
        (congrArg Session.pending (hcore.trans hnoted.symm) :)
      rw [hadded, List.map_append] at hbare
      simpa using hbare
    rw [hnone, List.append_nil] at hadded
    exact (h.linked.noteUrl_left event.url).congr_left
      (congrArg (fun s => (Session.context s).recording) (hcore.trans hnoted.symm) :)
      hworked.baseUrl hadded hworked.store

/-- A control that both sessions hear. -/
theorem Alike.worked (h : Alike s t) {s' t' : Session} (hs : Worked s s') (ht : Worked t t')
    (hcore : s'.core = t'.core)
    (hidle : s.context.recording = false → s' = s ∧ t' = t) : Alike s' t' := by
  refine ⟨hcore, ?_⟩
  cases hrecording : s.context.recording with
  | false =>
    obtain ⟨rfl, rfl⟩ := hidle hrecording
    exact h.linked
  | true =>
    exact h.linked.worked hrecording (h.recording.symm.trans hrecording) hs ht hcore

/-- **One step.** Sessions that are alike give the same back, and stay alike. -/
theorem Alike.take (h : Alike s t) (turn : Turn) :
    s.answer turn = t.answer turn ∧ Alike (s.take turn) (t.take turn) := by
  have hidle {s : Session} (hs : s.context.recording = false) :
      s.toggle.1 = s ∧ s.skipPagination = s ∧ ∀ name, (s.assignLabel name).1 = s := by
    refine ⟨by simp [Session.toggle, hs], by simp [Session.skipPagination, hs], fun name => ?_⟩
    unfold Session.assignLabel
    simp only [hs, Bool.false_and, Bool.false_eq_true, if_false]
    split <;> rfl
  have hboth (hs : s.context.recording = false) := hidle (h.recording.symm.trans hs)
  cases turn with
  | write => exact ⟨rfl, h.writeNext⟩
  | move move =>
    cases move with
    | start baseUrl =>
      exact ⟨congrArg Answer.started (h.start baseUrl).1, (h.start baseUrl).2⟩
    | stop => exact ⟨congrArg Answer.stopped h.stop.1, h.stop.2⟩
    | flush => exact ⟨rfl, h.flush⟩
    | event event => exact ⟨congrArg Answer.heard (h.handle event).1, (h.handle event).2⟩
    | toggle =>
      obtain ⟨hs, hmade⟩ := core_toggle s
      obtain ⟨ht, hmade'⟩ := core_toggle t
      rw [h.core] at hs hmade
      exact ⟨congrArg Answer.made (hmade.symm.trans hmade'),
        h.worked (worked_toggle s) (worked_toggle t) (hs.symm.trans ht)
          fun hrecording => ⟨(hidle hrecording).1, (hboth hrecording).1⟩⟩
    | skipPagination =>
      have hs := core_skipPagination s
      rw [h.core] at hs
      exact ⟨rfl, h.worked (worked_skipPagination s) (worked_skipPagination t)
        (hs.symm.trans (core_skipPagination t))
        fun hrecording => ⟨(hidle hrecording).2.1, (hboth hrecording).2.1⟩⟩
    | label name =>
      obtain ⟨hs, hmade⟩ := core_assignLabel s name
      obtain ⟨ht, hmade'⟩ := core_assignLabel t name
      rw [h.core] at hs hmade
      exact ⟨congrArg Answer.made (hmade.symm.trans hmade'),
        h.worked (worked_assignLabel s name) (worked_assignLabel t name) (hs.symm.trans ht)
          fun hrecording => ⟨(hidle hrecording).2.2 name, (hboth hrecording).2.2 name⟩⟩

theorem settings_take (s : Session) (turn : Turn) : (s.take turn).settings = s.settings := by
  cases turn with
  | write =>
    show s.writeNext.settings = s.settings
    unfold Session.writeNext
    split <;> rfl
  | move move =>
    cases move with
    | start baseUrl => exact (congrArg Session.settings (start_eq_written s baseUrl).2 :)
    | stop => exact (congrArg Session.settings (stop_eq_written s).2 :)
    | flush => exact (congrArg Session.settings (flush_eq s) :)
    | event event =>
      refine (worked_handle s event).settings.trans ?_
      split
      · exact s.noteUrl_settings event.url
      · rfl
    | toggle => exact (worked_toggle s).settings
    | skipPagination => exact (worked_skipPagination s).settings
    | label name => exact (worked_assignLabel s name).settings

/-! ## Runs -/

end Session

/-- An event on the overlay. -/
def Turn.OnOverlay (settings : Settings) : Turn → Prop
  | .move (.event event) => event.OnOverlay settings
  | _ => False

namespace Session

variable {s t : Session}

/-- What the steps of a run give back that are marked with true. -/
def answers (s : Session) : List (Turn × Bool) → List Answer
  | [] => []
  | (turn, true) :: rest => s.answer turn :: (s.take turn).answers rest
  | (turn, false) :: rest => (s.take turn).answers rest

/-- The run without the steps that are marked with false. -/
def spared (run : List (Turn × Bool)) : List (Turn × Bool) := run.filter (·.2)

/-- The induction is on the run, for two sessions that are alike. -/
theorem Alike.takeAll_spared (h : Alike s t) {settings : Settings}
    (hsettings : s.settings = settings)
    {run : List (Turn × Bool)}
    (hrun : ∀ step ∈ run, step.2 = false → step.1.OnOverlay settings) :
    s.answers run = t.answers (spared run)
      ∧ Alike (s.takeAll (run.map (·.1))) (t.takeAll ((spared run).map (·.1))) := by
  induction run generalizing s t with
  | nil => exact ⟨rfl, h⟩
  | cons step rest ih =>
    obtain ⟨turn, kept⟩ := step
    have hrest : ∀ step ∈ rest, step.2 = false → step.1.OnOverlay settings :=
      fun step hstep => hrun step (List.mem_cons_of_mem _ hstep)
    cases kept with
    | true =>
      obtain ⟨hanswer, htaken⟩ := h.take turn
      obtain ⟨hanswers, halike⟩ := ih htaken ((settings_take s turn).trans hsettings) hrest
      refine ⟨?_, halike⟩
      show s.answer turn :: _ = t.answer turn :: _
      rw [hanswer, hanswers]
      rfl
    | false =>
      have hoverlay := hrun (turn, false) (by simp) rfl
      match turn with
      | .write => exact absurd hoverlay id
      | .move (.event event) =>
        have htaken := h.handle_onOverlay (hsettings ▸ hoverlay)
        exact ih htaken ((settings_take s (.move (.event event))).trans hsettings) hrest

/-- What an overlay must not touch: the actions that are recorded, and what decides on the next
ones. -/
structure Undisturbed (s t : Session) : Prop where
  actions : s.log.actions = t.log.actions
  recording : s.context.recording = t.context.recording
  phase : s.context.phase = t.context.phase
  subject : s.context.subject = t.context.subject
  modifierHeld : s.context.modifierHeld = t.context.modifierHeld
  markedTable : s.context.markedTable = t.context.markedTable
  labelMode : s.context.labelMode = t.context.labelMode
  pinned : s.context.pinned = t.context.pinned

/-- **What happens on the overlay leaves no trace.** Any set of events on the overlay may be taken
out of a run. The other steps give back the same, and the actions that are recorded are the same, as
is all else but the address and the highlights. -/
theorem undisturbed_takeAll {settings : Settings} (clock : Clock) (store : Option Store)
    (hasBackground : Bool) {run : List (Turn × Bool)}
    (hrun : ∀ step ∈ run, step.2 = false → step.1.OnOverlay settings) :
    (fresh settings clock store hasBackground).answers run
        = (fresh settings clock store hasBackground).answers (spared run)
      ∧ Undisturbed ((fresh settings clock store hasBackground).takeAll (run.map (·.1)))
        ((fresh settings clock store hasBackground).takeAll ((spared run).map (·.1))) := by
  have halike : Alike (fresh settings clock store hasBackground)
      (fresh settings clock store hasBackground) :=
    ⟨rfl, .same rfl rfl rfl (by simp [fresh])⟩
  obtain ⟨hanswers, hend⟩ := halike.takeAll_spared rfl hrun
  have hcontext := hend.context
  exact ⟨hanswers, hend.actions, hend.recording, (congrArg Context.phase hcontext :),
    (congrArg Context.subject hcontext :), (congrArg Context.modifierHeld hcontext :),
    (congrArg Context.markedTable hcontext :), (congrArg Context.labelMode hcontext :),
    (congrArg Context.pinned hcontext :)⟩

/-- A click on a button of the overlay, the first event to bring an address. -/
def overlayClick : Event :=
  { type := .click, target := some 0, url := "https://example.org/"
    page := Page.empty.push "button" [("class", "ignore-recorder")] none }

/-- A recording in which that click is marked. -/
def overlayRun : List (Turn × Bool) :=
  [(.move (.start (.str "")), true), (.move (.event overlayClick), false),
    (.move (.event (filling "Ada")), true), (.write, true), (.move .stop, true)]

theorem undisturbed_takeAll_overlayRun :
    overlayClick.OnOverlay {}
      ∧ freshSession.answers overlayRun = freshSession.answers (spared overlayRun)
      ∧ Undisturbed (freshSession.takeAll (overlayRun.map (·.1)))
        (freshSession.takeAll ((spared overlayRun).map (·.1))) := by
  have hclick : overlayClick.OnOverlay {} := ⟨.inl rfl, 0, rfl, by decide +kernel⟩
  have hrun : ∀ step ∈ overlayRun, step.2 = false → step.1.OnOverlay {} := by
    simp [overlayRun, Turn.OnOverlay, hclick]
  exact ⟨hclick, undisturbed_takeAll _ _ _ hrun⟩

/-- The address is what tells the two recordings apart. -/
example :
    (freshSession.takeAll (overlayRun.map (·.1))).log.baseUrl.truthy = true
      ∧ (freshSession.takeAll ((spared overlayRun).map (·.1))).log.baseUrl.truthy = false := by
  decide +kernel

end Session

end Retrace
