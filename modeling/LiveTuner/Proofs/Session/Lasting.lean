import LiveTuner.Proofs.EditorTree.Lasting
import LiveTuner.Proofs.Session.Consistency

/-!
# What lasts in a session

A session changes its definitions and its editors in few ways: definitions come in, values are set,
editors are loaded and changed, and all of it is dropped. What each of these leaves as it is lasts
for the life of a session, whatever frames come in and whatever the user does. Some things last only
as long as the definitions in the frames are of a kind.

## Main definitions

* `Param.IsResolved` — a parameter as it comes in
* `Session.Turn.definitions` — the definitions that come in a frame
* `Session.LastsAmong` — as long as definitions are of a kind, nothing that a session does to its
  definitions or its editors ends something
* `Session.Lasts` — whatever the definitions are, nothing ends it

## Main results

* `Session.LastsAmong.turns`, `Session.Lasts.turns` — it lasts for the life of a session
* `Session.lastsAmong_satisfies`, `Session.lasts_satisfies` — what lasts for every editor
* `Session.isOrdered_of_turns` — every definition and every editor is kept under its own id
-/

namespace LiveTuner

/-- A parameter as it comes in: what the definition of it describes, as far as that can be told. -/
def Param.IsResolved (p : Param) : Prop := ∃ d : Definition, d.resolveLeniently = p

namespace Session

variable {Q : Param → Prop} {R : Registry → Prop} {E : EditorTree → Prop} {s s' start : Session}
  {id : ParamId} {val : Value} {problems : List Problem} {life : List Turn}

/-- The definitions that come in a frame. -/
def Turn.definitions : Turn → List Definition
  | .incident (.frame payload) =>
    match Inbound.classify payload with
    | .ok (.definitions definitions _) => definitions
    | _ => []
  | _ => []

/-- As long as `Q` holds of the parameters that come in, nothing that a session does to its
definitions ends `R`, and nothing that it does to its editors ends `E`. -/
structure LastsAmong (Q : Param → Prop) (R : Registry → Prop) (E : EditorTree → Prop) : Prop where
  /-- There may be no definitions. -/
  empty : R .empty
  /-- Definitions may come in. -/
  flatten : ∀ (r : Registry) ps, (∀ p ∈ ps, Q p) → R r → R (r.flatten ps)
  /-- A value may be set. -/
  setValue : ∀ (r r' : Registry) id val, R r → r.setValue? id val = some r' → R r'
  /-- Editors may be loaded. -/
  load : ∀ (t : EditorTree) ps, (∀ p ∈ ps, Q p) → E (t.load ps)
  /-- Editors may change. -/
  change : ∀ (t t' : EditorTree) c, (∀ p, c = .reconcile p → Q p) → E t →
    t.change c = some t' → E t'

/-- Nothing that a session does to its definitions ends `R`, and nothing that it does to its editors
ends `E`. -/
structure Lasts (R : Registry → Prop) (E : EditorTree → Prop) : Prop where
  /-- There may be no definitions. -/
  empty : R .empty
  /-- Definitions may come in. -/
  flatten : ∀ (r : Registry) ps, (∀ p ∈ ps, p.IsResolved) → R r → R (r.flatten ps)
  /-- A value may be set. -/
  setValue : ∀ (r r' : Registry) id val, R r → r.setValue? id val = some r' → R r'
  /-- Editors may be loaded. -/
  load : ∀ (t : EditorTree) ps, (∀ p ∈ ps, p.IsResolved) → E (t.load ps)
  /-- Editors may change. -/
  change : ∀ (t t' : EditorTree) c, (∀ p, c = .reconcile p → p.IsResolved) → E t →
    t.change c = some t' → E t'

/-- `R` holds of the definitions and `E` of the editors. -/
structure Has (R : Registry → Prop) (E : EditorTree → Prop) (s : Session) : Prop where
  /-- The definitions. -/
  registry : R s.registry
  /-- The editors. -/
  editors : E s.editors

theorem Has.sendAll (h : s.Has R E) (sent : List Outbound) : (s.sendAll sent).Has R E := by
  rw [sendAll_eq]
  exact ⟨h.registry, h.editors⟩

namespace LastsAmong

variable (hlasts : LastsAmong Q R E)

include hlasts

/-- All may be dropped: that is loading nothing. -/
theorem reset (s : Session) : s.reset.Has R E := 
  ⟨hlasts.empty, hlasts.load s.editors [] (by simp)⟩

theorem reselects {t : Session} {sent : List Outbound} (h : s.Has R E)
    (hreselects : s.Reselects t sent) : (t.sendAll sent).Has R E := by
  have hdropped := hlasts.reset s
  apply Has.sendAll
  cases hreselects with
  | keeps available advertised => exact ⟨h.registry, h.editors⟩
  | selects available advertised node => exact ⟨hdropped.registry, hdropped.editors⟩
  | deselects available advertised => exact ⟨hdropped.registry, hdropped.editors⟩

/-! ### Data -/

theorem reconcileAll {t t' : EditorTree} {params : List Param}
    (hparams : ∀ p ∈ params, Q p) (h : E t)
    (hall : Session.reconcileAll t params = some (t', problems)) : E t' := by
  induction params generalizing t problems with
  | nil => exact (Prod.mk.inj (Option.some.inj hall)).1 ▸ h
  | cons p rest ih =>
    obtain ⟨hp, hrest⟩ := List.forall_mem_cons.mp hparams
    obtain ⟨result, hresult, hall⟩ := Option.bind_eq_some_iff.mp hall
    cases result with
    | ok t₁ =>
      have hchange : t.change (.reconcile p) = some t₁ := by simp [EditorTree.change, hresult]
      have hsame : ∀ q, EditorTree.Change.reconcile p = .reconcile q → Q q := by
        rintro q ⟨⟩
        exact hp
      exact ih hrest (hlasts.change t t₁ _ hsame h hchange) hall
    | error problem =>
      -- A definition that is refused leaves the tree to the next.
      obtain ⟨⟨t₂, later⟩, hlater, hall⟩ := Option.bind_eq_some_iff.mp hall
      obtain rfl := (Prod.mk.inj (Option.some.inj hall)).1
      exact ih hrest h hlater

theorem redefine {params : List Param} (hparams : ∀ p ∈ params, Q p) (h : s.Has R E)
    (hredefine : s.redefine params = some (s', problems)) : s'.Has R E := by
  obtain ⟨⟨editors, _⟩, hall, hredefine⟩ := Option.bind_eq_some_iff.mp hredefine
  obtain rfl := eq_of_some_mk_eq hredefine
  exact ⟨hlasts.flatten _ params hparams h.registry, hlasts.reconcileAll hparams h.editors hall⟩

/-- A value that is not taken leaves the definitions as they are. -/
theorem getD_setValue {r : Registry} (h : R r) (id : ParamId) (val : Value) :
    R ((r.setValue? id val).getD r) := by
  cases hset : r.setValue? id val with
  | none => exact h
  | some r' => exact hlasts.setValue r r' id val h hset

theorem pushValue (h : s.Has R E) (hpush : s.pushValue id val = some (s', problems)) :
    s'.Has R E := by
  rcases pushValue_cases hpush with ⟨editors, hbind, -, rfl⟩ | ⟨registry, -, hset, -, rfl⟩ |
    ⟨-, rfl⟩
  · have hchange : s.editors.change (.bindValue id val) = some editors := by
      simp [EditorTree.change, hbind]
    exact ⟨hlasts.getD_setValue h.registry id val, hlasts.change _ _ _ (by simp) h.editors hchange⟩
  · exact ⟨hlasts.setValue _ registry id val h.registry hset, h.editors⟩
  · exact h

/-! ### Any turn -/

theorem interact {interaction : Interaction} {val? : Option Value} (h : s.Has R E)
    (hinteract : s.interact id interaction = some (.ok (s', val?))) : s'.Has R E := by
  obtain ⟨editors, hedit, hs'⟩ := interact_eq_ok hinteract
  have hchange : s.editors.change (.interact id interaction) = some editors := by
    simp [EditorTree.change, hedit]
  have heditors := hlasts.change _ _ _ (by simp) h.editors hchange
  rcases hs' with ⟨-, rfl⟩ | ⟨val, -, rfl⟩
  · exact ⟨h.registry, heditors⟩
  · rw [send_eq]
    exact ⟨hlasts.getD_setValue h.registry id val, heditors⟩

theorem handleMessage {message : Inbound} (hconnected : s.state ≠ .disconnected)
    (hQ : ∀ definitions rejected, message = .definitions definitions rejected →
      ∀ p ∈ definitions.map Definition.resolveLeniently, Q p)
    (h : s.Has R E) (hhandle : s.handleMessage message = some (s', problems)) : s'.Has R E := by
  cases message with
  | nodes names =>
    obtain ⟨t, sent, hreselects, ht⟩ := reselects_updateNodes hconnected names
    have heq : (s.updateNodes names).1 = s' := by rw [Option.some.inj hhandle]
    exact heq ▸ ht ▸ hlasts.reselects h hreselects
  | definitions definitions rejected =>
    have hparams := hQ definitions rejected rfl
    rw [Session.handleMessage] at hhandle
    split_ifs at hhandle
    · exact eq_of_some_mk_eq hhandle ▸
        ⟨hlasts.flatten _ _ hparams h.registry, hlasts.load _ _ hparams⟩
    · obtain ⟨⟨u, _⟩, hu, hhandle⟩ := Option.bind_eq_some_iff.mp hhandle
      exact eq_of_some_mk_eq hhandle ▸ hlasts.redefine hparams h hu
    · exact eq_of_some_mk_eq hhandle ▸ h
  | push id val =>
    rw [Session.handleMessage] at hhandle
    split_ifs at hhandle
    · exact hlasts.pushValue h hhandle
    · exact eq_of_some_mk_eq hhandle ▸ h
  | unrecognized | other => exact eq_of_some_mk_eq hhandle ▸ h

theorem handle {incident : Incident}
    (hQ : ∀ d ∈ (Turn.incident incident).definitions, Q d.resolveLeniently)
    (h : s.Has R E) (hhandle : s.handle incident = some s') : s'.Has R E := by
  cases incident with
  | frame payload =>
    obtain ⟨⟨u, problems⟩, hu, rfl⟩ := Option.map_eq_some_iff.mp hhandle
    rw [handleFrame] at hu
    split_ifs at hu with hdisconnected
    · exact eq_of_some_mk_eq hu ▸ h
    · split at hu
      · next message hmessage =>
        refine hlasts.handleMessage hdisconnected ?_ h hu
        rintro definitions rejected rfl
        simpa [Turn.definitions, hmessage] using hQ
      · exact eq_of_some_mk_eq hu ▸ h
  | select node =>
    rw [Session.handle] at hhandle
    split at hhandle
    · next u changed hselect =>
      obtain ⟨t, sent, hreselects, rfl⟩ := reselects_selectNode hselect
      exact Option.some.inj hhandle ▸ hlasts.reselects h hreselects
    · exact Option.some.inj hhandle ▸ h
  | interact id interaction =>
    obtain ⟨result, hresult, rfl⟩ := Option.map_eq_some_iff.mp hhandle
    rcases result with problem | ⟨u, val?⟩
    · exact h
    · exact hlasts.interact h hresult

theorem turn {now : Turn} (hQ : ∀ d ∈ now.definitions, Q d.resolveLeniently) (h : s.Has R E)
    (hturn : s.turn now = some s') : s'.Has R E := by
  have hdropped := hlasts.reset s
  cases now with
  | connect =>
    obtain rfl := Option.some.inj hturn
    exact ⟨hdropped.registry, hdropped.editors⟩
  | disconnect =>
    obtain rfl := Option.some.inj hturn
    exact ⟨hdropped.registry, hdropped.editors⟩
  | incident incident => exact hlasts.handle hQ h hturn

/-- It lasts for a life in which `Q` holds of all parameters that come in. -/
theorem turns (hQ : ∀ now ∈ life, ∀ d ∈ now.definitions, Q d.resolveLeniently) (h : s.Has R E)
    (hlife : s.turns life = some s') : s'.Has R E := by
  induction life generalizing s with
  | nil => exact Option.some.inj hlife ▸ h
  | cons now later ih =>
    obtain ⟨hnow, hlater⟩ := List.forall_mem_cons.mp hQ
    obtain ⟨u, hu, hrest⟩ := exists_turns_of_cons hlife
    exact ih hlater (hlasts.turn hnow h hu) hrest

/-- If `Q` holds of all parameters that can come in, nothing ends it. -/
theorem lasts (hQ : ∀ p : Param, p.IsResolved → Q p) : Lasts R E where
  empty := hlasts.empty
  flatten r ps hps := hlasts.flatten r ps fun p hp => hQ p (hps p hp)
  setValue := hlasts.setValue
  load t ps hps := hlasts.load t ps fun p hp => hQ p (hps p hp)
  change t t' c hc := hlasts.change t t' c fun p hp => hQ p (hc p hp)

end LastsAmong

theorem Lasts.lastsAmong (hlasts : Lasts R E) : LastsAmong Param.IsResolved R E :=
  ⟨hlasts.empty, hlasts.flatten, hlasts.setValue, hlasts.load, hlasts.change⟩

/-- It lasts for the life of a session. -/
theorem Lasts.turns (hlasts : Lasts R E) (h : s.Has R E) (hlife : s.turns life = some s') :
    s'.Has R E :=
  hlasts.lastsAmong.turns (fun _ _ d _ => ⟨d, rfl⟩) h hlife

/-- What holds of every editor that is mounted for a parameter of which `Q` holds, and outlasts
whatever becomes of single editors, lasts for all of them as long as such parameters come in. -/
theorem lastsAmong_satisfies {P : ParamId → Editor → Prop} {L : ParamId → ParamId → Prop}
    (hallows : EditorTree.Allows P L Q) (houtlasts : EditorTree.Outlasts P Q) :
    LastsAmong Q (fun _ => True) (·.Satisfies P L) where
  empty := trivial
  flatten _ _ _ _ := trivial
  setValue _ _ _ _ _ _ := trivial
  load t _ hps := EditorTree.Satisfies.load hallows hps t
  change _ _ _ hc ht hchange := ht.change hallows houtlasts hc hchange

theorem lasts_satisfies {P : ParamId → Editor → Prop} {L : ParamId → ParamId → Prop}
    {Q : Param → Prop} (hallows : EditorTree.Allows P L Q) (houtlasts : EditorTree.Outlasts P Q)
    (hQ : ∀ p : Param, p.IsResolved → Q p) : Lasts (fun _ => True) (·.Satisfies P L) :=
  (lastsAmong_satisfies hallows houtlasts).lasts hQ

/-- Every definition is the entry of its own id; every editor fits its id, and none is shown below
itself. -/
def IsOrdered (s : Session) : Prop := s.Has Registry.IsKeyed EditorTree.IsPaintable

theorem lasts_isOrdered : Lasts Registry.IsKeyed EditorTree.IsPaintable where
  empty := Registry.isKeyed_empty
  flatten _ ps _ hr := hr.flatten ps
  setValue _ _ _ _ hr hset := hr.setValue? hset
  load t ps _ := EditorTree.IsPaintable.load t ps
  change _ _ _ _ ht hchange := ht.change hchange

theorem IsNew.isOrdered (h : s.IsNew) : s.IsOrdered := by
  cases h with
  | plain preferred => exact ⟨Registry.isKeyed_empty, EditorTree.isPaintable_clear .empty⟩
  | pinned node => exact ⟨Registry.isKeyed_empty, EditorTree.isPaintable_clear .empty⟩

/-- Whatever definitions come in and whatever the user does, definitions and editors stay under
their own ids. -/
theorem isOrdered_of_turns (hstart : start.IsNew) (hlife : start.turns life = some s) :
    s.IsOrdered :=
  lasts_isOrdered.turns hstart.isOrdered hlife

end Session

end LiveTuner
