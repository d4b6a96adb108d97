import NmLogging.Sinks.Registry

/-!
# One kind of record in a file

What the registry keeps apart, in every run of a process: `Process.isolated`. What was
appended to a file since it was first seen is of one kind, that of the state that the
registry holds for the identity of the file; the sinks on one identity share that state;
a constructor that fails changes nothing but that it may leave a new file; and the latch
of an identity is set by an append to it only, and never cleared.
-/

namespace NmLogging

/-! ## The registry over time -/

namespace Streams

/-- Every entry is still there, with its object, its kind, and its latch if it was set. -/
structure Extends (S S' : Streams) : Prop where
  table : ∀ {id : Identity} {ref : Nat}, S.table.get? id = some ref → S'.table.get? id = some ref
  objects : ∀ {ref : Nat} {state : StreamState}, S.objects[ref]? = some state →
    ∃ state', S'.objects[ref]? = some state' ∧ state'.streamKind = state.streamKind ∧
      (state.latched = true → state'.latched = true)

variable {S S' S'' : Streams} {id : Identity} {kind : StreamKind} {ref : Nat} {state : StreamState}

theorem Extends.refl (S : Streams) : S.Extends S := ⟨id, fun h => ⟨_, h, rfl, id⟩⟩

theorem Extends.trans (h : S.Extends S') (h' : S'.Extends S'') : S.Extends S'' where
  table := fun ht => h'.table (h.table ht)
  objects := by
    intro ref state ho
    obtain ⟨state', ho', hk, hl⟩ := h.objects ho
    obtain ⟨state'', ho'', hk', hl'⟩ := h'.objects ho'
    exact ⟨state'', ho'', hk'.trans hk, fun hs => hl' (hl hs)⟩

theorem extends_register (h : S.register id kind = .ok (S', ref)) : S.Extends S' := by
  rcases register_ok h with ⟨hnone, rfl, hobj, htab⟩ | ⟨rfl, -, -⟩
  · constructor
    · intro id' ref' hg
      rw [htab, Dict.get?_set, if_neg, hg]
      rintro rfl
      rw [hnone] at hg
      cases hg
    · intro ref' state hs
      refine ⟨state, ?_, rfl, fun h => h⟩
      rw [hobj, List.getElem?_append_left (List.getElem?_eq_some_iff.mp hs).1, hs]
  · exact .refl _

theorem extends_setLatch {latched : Bool}
    (h : ∀ state, S.objects[ref]? = some state → state.latched = true → latched = true) :
    S.Extends (S.setLatch ref latched) where
  table := fun hg => hg
  objects := by
    intro ref' state hs
    refine ⟨if ref = ref' then { state with latched := latched } else state, ?_, ?_⟩
    · simp only [setLatch, List.getElem?_modify, hs, Option.map_eq_map, Option.map_some]
    · by_cases href : ref = ref'
      · subst href
        rw [if_pos rfl]
        exact ⟨rfl, h state hs⟩
      · rw [if_neg href]
        exact ⟨rfl, fun h => h⟩

/-- The state of a registered identity. -/
theorem stateOf_eq_some :
    S.stateOf id = some state ↔ ∃ ref, S.table.get? id = some ref ∧ S.objects[ref]? = some state := by
  rw [stateOf]
  cases S.table.get? id <;> simp

theorem stateOf_eq_none : S.stateOf id = none ↔ S.table.get? id = none := by
  rw [stateOf]
  cases h : S.table.get? id with
  | none => simp
  | some ref => simp [lt_of_get? h]

/-- A registration gives a state to its identity only. -/
theorem stateOf_register (h : S.register id kind = .ok (S', ref)) (id' : Identity) :
    S'.stateOf id' = if id = id' ∧ S.stateOf id = none then some (.init kind) else S.stateOf id' := by
  rcases register_ok h with ⟨hnone, rfl, hobj, htab⟩ | ⟨rfl, hsome, -⟩
  · have hid : S.stateOf id = none := stateOf_eq_none.mpr hnone
    by_cases he : id = id'
    · subst he
      rw [if_pos ⟨rfl, hid⟩, stateOf_eq_some]
      exact ⟨S.objects.length, by rw [htab, Dict.get?_set, if_pos rfl], by rw [hobj]; simp⟩
    · rw [if_neg (fun h => he h.1), stateOf, htab, Dict.get?_set, if_neg he, stateOf]
      cases hg : S.table.get? id' with
      | none => rfl
      | some ref' =>
        show S'.objects[ref']? = S.objects[ref']?
        rw [hobj, List.getElem?_append_left (lt_of_get? hg)]
  · rw [if_neg]
    rintro ⟨-, hnone⟩
    rw [stateOf_eq_none, hsome] at hnone
    cases hnone

/-- A latch changes the state of the identity whose reference it is set through. -/
theorem stateOf_setLatch (h : S.table.get? id = some ref) (latched : Bool) (id' : Identity) :
    (S.setLatch ref latched).stateOf id' =
      if id = id' then (S.stateOf id').map fun state => { state with latched := latched }
      else S.stateOf id' := by
  by_cases he : id = id'
  · subst he
    simp only [stateOf, setLatch, h, if_true, Option.bind_eq_bind, Option.bind_some,
      List.getElem?_modify, Option.map_eq_map]
  · rw [if_neg he, stateOf, stateOf]
    show (S.table.get? id' >>= fun ref' => _) = _
    cases hg : S.table.get? id' with
    | none => rfl
    | some ref' =>
      have hne : ref ≠ ref' := by
        rintro rfl
        exact he (get?_inj h hg)
      simp [setLatch, List.getElem?_modify, hne]

end Streams

namespace Process

variable [PyRuntime]

/-! ## What holds of sinks and files -/

omit [PyRuntime] in
/-- A sink holds the state that the registry has for the identity of its file, and it is of
its kind. -/
def Bound (P : Process) (s : SinkObject) : Prop :=
  ∃ f state, P.files[s.file]? = some f ∧ P.streams.table.get? f.ident = some s.state ∧
    P.streams.objects[s.state]? = some state ∧ state.streamKind = s.kind

/-- A line of a record that sinks of the kind take. -/
def LineOf (kind : StreamKind) (l : Bytes) : Prop := ∃ r, kind.encodeLine r = .ok l

/-- Bytes written by appends through sinks of one kind: lines and pieces of lines. -/
def Pieces (kind : StreamKind) (b : Bytes) : Prop :=
  ∃ pieces : List Bytes, b = pieces.flatten ∧ ∀ piece ∈ pieces, ∃ l, LineOf kind l ∧ piece <+: l

/-- Lines of one kind, with a torn one at the end only. -/
def Framed (kind : StreamKind) (b : Bytes) (latched : Bool) : Prop :=
  ∃ (lines : List Bytes) (t : Bytes), b = lines.flatten ++ t ∧ (∀ l ∈ lines, LineOf kind l) ∧
    (t = [] ∨ latched = true ∧ ∃ l, LineOf kind l ∧ t <+: l)

/-- What appends keep of what was written to a file, with the latch of its stream: appends whose
operating system behaves as `C` says. -/
structure Kept (C : OsBehaviour → Prop) (W : StreamKind → Bytes → Bool → Prop) : Prop where
  nil : ∀ kind latched, W kind [] latched
  latch : ∀ {kind b}, W kind b false → W kind b true
  append : ∀ {a : SinkAppend} {b l : Bytes} {n : Nat} {latched : Bool}, C a.os →
    W a.kind b false → a.kind.encodeLine a.record = .ok l → n ≤ l.length →
    (a.os.OnlyOsErrors → 0 < n → n < l.length → latched = true) →
    W a.kind (b ++ l.take n) latched

theorem kept_pieces : Kept (fun _ => True) fun kind b _ => Pieces kind b where
  nil := fun _ _ => ⟨[], rfl, by simp⟩
  latch := fun h => h
  append := by
    rintro a _ l n latched - ⟨pieces, rfl, h⟩ hline - -
    refine ⟨pieces ++ [l.take n], by simp, ?_⟩
    intro piece hp
    rcases List.mem_append.mp hp with hp | hp
    · exact h piece hp
    · rw [List.mem_singleton.mp hp]
      exact ⟨l, ⟨a.record, hline⟩, List.take_prefix _ _⟩

theorem kept_framed : Kept OsBehaviour.OnlyOsErrors Framed where
  nil := fun _ _ => ⟨[], [], rfl, by simp, .inl rfl⟩
  latch := by
    rintro kind _ ⟨lines, t, rfl, hl, ht⟩
    exact ⟨lines, t, rfl, hl, ht.imp_right fun h => nomatch h.1⟩
  append := by
    rintro a _ l n latched hos ⟨lines, t, rfl, hl, ht⟩ hline hn hlatch
    obtain rfl : t = [] := ht.resolve_right fun h => nomatch h.1
    have hkind : LineOf a.kind l := ⟨a.record, hline⟩
    rw [List.append_nil]
    by_cases hfull : n = l.length
    · refine ⟨lines ++ [l], [], by simp [hfull], ?_, .inl rfl⟩
      intro m hm
      rcases List.mem_append.mp hm with hm | hm
      · exact hl m hm
      · rw [List.mem_singleton.mp hm]; exact hkind
    · refine ⟨lines, l.take n, rfl, hl, ?_⟩
      rcases Nat.eq_zero_or_pos n with rfl | hpos
      · exact .inl (List.take_zero)
      · exact .inr ⟨hlatch hos hpos (by omega), l, hkind, List.take_prefix _ _⟩

/-- What holds of a file: nothing was appended where no sink registered its identity, and
otherwise something of the kind of its state. -/
def Written (W : StreamKind → Bytes → Bool → Prop) (P : Process) (f : OsFile) : Prop :=
  ∃ b, f.content = f.origin ++ b ∧
    match P.streams.stateOf f.ident with
    | none => b = []
    | some state => W state.streamKind b state.latched

/-- The invariant of a process. -/
structure Inv (W : StreamKind → Bytes → Bool → Prop) (P : Process) : Prop where
  sinks : ∀ s ∈ P.sinks, P.Bound s
  files : ∀ f ∈ P.files, P.Written W f

variable {C : OsBehaviour → Prop} {W : StreamKind → Bytes → Bool → Prop} {P P' : Process}
  {a : Action}

omit [PyRuntime] in
theorem latched_streamOf {s : SinkObject} {state : StreamState}
    (h : P.streams.objects[s.state]? = some state) : (P.streamOf s).latched = state.latched := by
  simp [streamOf, h]

omit [PyRuntime] in
theorem content_streamOf {s : SinkObject} {f : OsFile} (h : P.files[s.file]? = some f) :
    (P.streamOf s).content = f.content := by
  simp [streamOf, h]

/-- No action takes anything from the registry. -/
theorem Did.extends (h : P.Did a P') : P.streams.Extends P'.streams := by
  cases h with
  | nothing => exact .refl _
  | opened => rw [(P.opened_streams _).1]; exact .refl _
  | constructed hf hreg => exact Streams.extends_register hreg
  | appended hs heff =>
    refine Streams.extends_setLatch fun state hstate hl => ?_
    rw [← latched_streamOf hstate] at hl
    cases heff with
    | none hcont hlatch => rw [hlatch, hl]
    | wrote hline hc hl' hn hcont htorn hlatch => rw [hl'] at hl; cases hl
  | closed hs hopen => exact .refl _
  | unlinked => exact .refl _
  | created => exact .refl _

omit [PyRuntime] in
theorem files_opened (target : Target) {n : Nat} {f : OsFile} (h : P.files[n]? = some f) :
    (P.opened target).2.files[n]? = some f := by
  cases target with
  | existing m => exact h
  | new ident =>
    show (P.files ++ [_])[n]? = some f
    rw [List.getElem?_append_left (List.getElem?_eq_some_iff.mp h).1, h]

/-- A file keeps its identity. -/
theorem Did.file (h : P.Did a P') {n : Nat} {f : OsFile} (hf : P.files[n]? = some f) :
    ∃ f', P'.files[n]? = some f' ∧ f'.ident = f.ident ∧ f'.origin = f.origin := by
  have modified : ∀ {m : Nat} {g : OsFile → OsFile},
      (∀ f, (g f).ident = f.ident ∧ (g f).origin = f.origin) →
      ∃ f', (P.files.modify m g)[n]? = some f' ∧ f'.ident = f.ident ∧ f'.origin = f.origin := by
    intro m g hg
    rw [List.getElem?_modify, hf]
    refine ⟨_, rfl, ?_⟩
    split
    · exact hg f
    · exact ⟨rfl, rfl⟩
  cases h with
  | nothing => exact ⟨f, hf, rfl, rfl⟩
  | opened => exact ⟨f, files_opened _ hf, rfl, rfl⟩
  | constructed hf' hreg => exact ⟨f, files_opened _ hf, rfl, rfl⟩
  | appended hs heff => exact modified fun _ => ⟨rfl, rfl⟩
  | closed hs hopen => exact ⟨f, hf, rfl, rfl⟩
  | unlinked => exact modified fun _ => ⟨rfl, rfl⟩
  | created =>
    exact ⟨f, by rw [List.getElem?_append_left (List.getElem?_eq_some_iff.mp hf).1, hf], rfl, rfl⟩

/-- A sink stays bound to its state. -/
theorem Did.bound (h : P.Did a P') {s : SinkObject} (hs : P.Bound s) : P'.Bound s := by
  obtain ⟨f, state, hf, ht, ho, hk⟩ := hs
  obtain ⟨f', hf', hident, -⟩ := h.file hf
  obtain ⟨state', ho', hk', -⟩ := h.extends.objects ho
  exact ⟨f', state', hf', hident ▸ h.extends.table ht, ho', hk'.trans hk⟩

omit [PyRuntime] in
/-- A new sink is bound to the state it registered. -/
theorem bound_new {kind : StreamKind} {fd ref : Nat} {f : OsFile} {S : Streams}
    (hf : P.files[fd]? = some f) (hreg : P.streams.register f.ident kind = .ok (S, ref))
    {sinks : List SinkObject} {closed held : Bool} :
    Bound { P with streams := S, sinks := sinks } ⟨kind, fd, ref, closed, held⟩ := by
  rcases Streams.register_ok hreg with ⟨-, rfl, hobj, htab⟩ | ⟨rfl, hsome, hkind⟩
  · exact ⟨f, .init kind, hf, by rw [htab, Dict.get?_set, if_pos rfl], by rw [hobj]; simp, rfl⟩
  · obtain ⟨state, ho, hk⟩ := Option.map_eq_some_iff.mp hkind
    exact ⟨f, state, hf, hsome, ho, hk⟩

/-- The sinks stay bound. -/
theorem Did.sinks (h : P.Did a P') (hs : ∀ s ∈ P.sinks, P.Bound s) : ∀ s ∈ P'.sinks, P'.Bound s := by
  intro s hm
  have hd := h
  cases h with
  | nothing => exact hs s hm
  | opened => exact hd.bound (hs s ((P.opened_streams _).2 ▸ hm))
  | constructed hf hreg =>
    rcases List.mem_append.mp hm with hm | hm
    · exact hd.bound (hs s hm)
    · rw [List.mem_singleton.mp hm]
      exact bound_new hf ((P.opened_streams _).1 ▸ hreg)
  | appended hs' heff => exact hd.bound (hs s hm)
  | closed hs' hopen =>
    rcases List.mem_or_eq_of_mem_set hm with hm | rfl
    · exact hd.bound (hs s hm)
    · have := hd.bound (hs _ (List.mem_of_getElem? hs'))
      exact this
  | unlinked => exact hd.bound (hs s hm)
  | created => exact hd.bound (hs s hm)

omit [PyRuntime] in
/-- What holds of a file is about its contents, its identity and the state of that. -/
theorem Written.congr {f f' : OsFile} (h : P.Written W f) (hcont : f'.content = f.content)
    (horig : f'.origin = f.origin)
    (hstate : P'.streams.stateOf f'.ident = P.streams.stateOf f.ident) : P'.Written W f' := by
  rw [Written, hcont, horig, hstate]
  exact h

/-- A file that nothing was appended to. -/
theorem Kept.written_origin (hW : Kept C W) {f : OsFile} (h : f.content = f.origin) :
    P.Written W f := by
  refine ⟨[], by rw [h, List.append_nil], ?_⟩
  split
  · rfl
  · exact hW.nil _ _

/-- The files of a process that has opened a path. -/
theorem Kept.written_opened (hW : Kept C W) (h : ∀ f ∈ P.files, P.Written W f) (target : Target) :
    ∀ f ∈ (P.opened target).2.files, (P.opened target).2.Written W f := by
  cases target with
  | existing n => exact h
  | new ident =>
    intro f hf
    rcases List.mem_append.mp hf with hf | hf
    · exact (h f hf).congr rfl rfl rfl
    · rw [List.mem_singleton.mp hf]
      exact hW.written_origin rfl

/-- A registration. -/
theorem Kept.written_register (hW : Kept C W) {kind : StreamKind} {id : Identity} {S : Streams}
    {ref : Nat} (hreg : P.streams.register id kind = .ok (S, ref)) {sinks : List SinkObject}
    {f : OsFile} (h : P.Written W f) : Written W { P with streams := S, sinks := sinks } f := by
  have hstate := Streams.stateOf_register hreg f.ident
  by_cases hnew : id = f.ident ∧ P.streams.stateOf id = none
  · obtain ⟨b, hb, hw⟩ := h
    rw [← hnew.1, hnew.2] at hw
    refine hW.written_origin ?_
    rw [hb, show b = [] from hw, List.append_nil]
  · rw [if_neg hnew] at hstate
    exact h.congr rfl rfl hstate

/-- An append, for each file. -/
theorem Kept.written_append (hW : Kept C W) {k : Nat} {s : SinkObject} {record : Record}
    {os : OsBehaviour} {q : Stream} (hs : P.Bound s) (hC : C os)
    (heff : (SinkAppend.mk s.kind k record os).Effect (P.streamOf s) q) {n : Nat} {f : OsFile}
    (hf : P.files[n]? = some f) (h : P.Written W f) :
    Written W { P with
      files := P.files.modify s.file fun f => { f with content := q.content }
      streams := P.streams.setLatch s.state q.latched }
      (if s.file = n then { f with content := q.content } else f) := by
  obtain ⟨g, state, hg, htab, hobj, hkind⟩ := hs
  have hlatched := latched_streamOf hobj
  have hstate := fun id => Streams.stateOf_setLatch htab q.latched id
  have hgstate : P.streams.stateOf g.ident = some state := Streams.stateOf_eq_some.mpr ⟨_, htab, hobj⟩
  obtain ⟨b, hb, hw⟩ := h
  -- the latch of the file's own identity is the only one that can change
  have hident : ∀ {c : Bytes} {f' : OsFile}, f'.ident = f.ident → f'.origin = f.origin →
      f'.content = f.origin ++ c → (g.ident = f.ident → W state.streamKind c q.latched) →
      (g.ident ≠ f.ident → c = b) → Written W { P with
        files := P.files.modify s.file fun f => { f with content := q.content }
        streams := P.streams.setLatch s.state q.latched } f' := by
    intro c f' hi ho hc hown hother
    refine ⟨c, by rw [ho, hc], ?_⟩
    show match (P.streams.setLatch s.state q.latched).stateOf f'.ident with
      | none => c = []
      | some state => W state.streamKind c state.latched
    rw [hi, hstate]
    by_cases he : g.ident = f.ident
    · rw [if_pos he, ← he, hgstate]
      exact hown he
    · rw [if_neg he, hother he]
      exact hw
  have hown : g.ident = f.ident → W state.streamKind b state.latched := by
    intro he
    rw [← he, hgstate] at hw
    exact hw
  cases heff with
  | none hcont hlatch =>
    have hsame : (if s.file = n then { f with content := q.content } else f) = f := by
      split
      · rename_i hn
        subst hn
        rw [hcont, content_streamOf hf]
      · rfl
    rw [hsame]
    refine hident rfl rfl hb (fun he => ?_) fun _ => rfl
    rw [hlatch, hlatched]
    exact hown he
  | @wrote l m hline hc hl hn hcont htorn hlatch =>
    rw [hlatched] at hl
    by_cases hfile : s.file = n
    · subst hfile
      cases hg.symm.trans hf
      rw [if_pos rfl]
      refine @hident (b ++ l.take m) _ rfl rfl ?_ (fun he => ?_) fun he => absurd rfl he
      · show q.content = _
        rw [hcont, content_streamOf hf, hb, List.append_assoc]
      · have hw := hown he
        rw [hl, hkind] at hw
        rw [hkind]
        exact hW.append hC hw hline hn hlatch
    · rw [if_neg hfile]
      refine hident rfl rfl hb (fun he => ?_) fun _ => rfl
      have hw := hown he
      rw [hl] at hw
      cases q.latched with
      | true => exact hW.latch hw
      | false => exact hw

omit [PyRuntime] in
/-- Whether what the operating system does in an append is as `C` says. -/
def AppendsWhere (C : OsBehaviour → Prop) : Action → Prop
  | .append _ _ os => C os
  | _ => True

/-- An action keeps the invariant. -/
theorem Inv.step (hW : Kept C W) (h : P.Inv W) (hd : P.Did a P') (hC : AppendsWhere C a) :
    P'.Inv W := by
  refine ⟨hd.sinks h.sinks, ?_⟩
  cases hd with
  | nothing => exact h.files
  | opened => exact hW.written_opened h.files _
  | @constructed kind target os f S ref hf hreg =>
    intro f hm
    have hopened := hW.written_opened h.files target f hm
    exact hW.written_register ((P.opened_streams target).1 ▸ hreg) hopened
  | appended hs heff =>
    intro f hm
    obtain ⟨n, hn⟩ := List.mem_iff_getElem?.mp hm
    rw [List.getElem?_modify] at hn
    obtain ⟨g, hg, rfl⟩ := Option.map_eq_some_iff.mp hn
    exact hW.written_append (h.sinks _ (List.mem_of_getElem? hs)) hC heff hg
      (h.files g (List.mem_of_getElem? hg))
  | closed hs hopen => exact h.files
  | unlinked =>
    intro f hm
    obtain ⟨n, hn⟩ := List.mem_iff_getElem?.mp hm
    rw [List.getElem?_modify] at hn
    obtain ⟨g, hg, rfl⟩ := Option.map_eq_some_iff.mp hn
    have hw := h.files g (List.mem_of_getElem? hg)
    split <;> exact hw.congr rfl rfl rfl
  | created =>
    intro f hm
    rcases List.mem_append.mp hm with hm | hm
    · exact (h.files f hm).congr rfl rfl rfl
    · rw [List.mem_singleton.mp hm]
      exact hW.written_origin rfl

/-- The invariant holds throughout a run. -/
theorem Run.inv (hW : Kept C W) {R : Process → Action → Prop} {P₀ : Process} (h₀ : P₀.Start)
    {actions : List Action} (h : P₀.Run R actions P) (hC : ∀ a ∈ actions, AppendsWhere C a) :
    P.Inv W := by
  induction h with
  | nil => exact ⟨by simp [h₀.sinks], fun f hf => hW.written_origin (h₀.origin f hf)⟩
  | @snoc actions P a hrun _ _ ih =>
    exact (ih fun a ha => hC a (List.mem_append_left _ ha)).step hW (perform_did P a)
      (hC a (List.mem_append_right _ (List.mem_singleton_self a)))

/-- And the registry only grows. -/
theorem Run.extends {R : Process → Action → Prop} {P₀ : Process} {actions : List Action}
    (h : P₀.Run R actions P) : P₀.streams.Extends P.streams := by
  induction h with
  | nil => exact .refl _
  | @snoc actions P a _ _ _ ih => exact ih.trans (perform_did P a).extends

/-! ## Isolation -/

omit [PyRuntime] in
/-- A constructor that raises changes nothing, but that it may leave a new file. -/
theorem construct_error {kind : StreamKind} {target : Target} {os : InitOs} {e : PyError}
    (h : (P.construct kind target os).1 = .error e) :
    (P.construct kind target os).2.streams = P.streams ∧
      (P.construct kind target os).2.sinks = P.sinks ∧
      ∀ (n : Nat) (f : OsFile), P.files[n]? = some f →
        (P.construct kind target os).2.files[n]? = some f := by
  rcases P.construct_cases kind target os with ⟨e', hc, -⟩ | ⟨e', hc, -⟩ | ⟨f, S, ref, -, -, hc⟩
  · rw [hc]
    exact ⟨rfl, rfl, fun _ _ hf => hf⟩
  · rw [hc]
    exact ⟨(P.opened_streams target).1, (P.opened_streams target).2,
      fun _ _ hf => files_opened target hf⟩
  · rw [hc] at h
    cases h

omit [PyRuntime] in
/-- The sinks on one identity, and no others, share a state. -/
theorem state_eq_iff {s s' : SinkObject} (hs : P.Bound s) (hs' : P.Bound s') {f f' : OsFile}
    (hf : P.files[s.file]? = some f) (hf' : P.files[s'.file]? = some f') :
    s.state = s'.state ↔ f.ident = f'.ident := by
  obtain ⟨g, -, hg, ht, -, -⟩ := hs
  obtain ⟨g', -, hg', ht', -, -⟩ := hs'
  cases hg.symm.trans hf
  cases hg'.symm.trans hf'
  constructor
  · intro h
    exact Streams.get?_inj ht (h ▸ ht')
  · intro h
    rw [h, ht'] at ht
    exact (Option.some.inj ht).symm

omit [PyRuntime] in
/-- The state of an identity keeps its kind, and its latch if it is set. -/
theorem extends_stateOf {S S' : Streams} (h : S.Extends S') {id : Identity} {state : StreamState}
    (hs : S.stateOf id = some state) : ∃ state', S'.stateOf id = some state' ∧
      state'.streamKind = state.streamKind ∧ (state.latched = true → state'.latched = true) := by
  obtain ⟨ref, ht, ho⟩ := Streams.stateOf_eq_some.mp hs
  obtain ⟨state', ho', hk, hl⟩ := h.objects ho
  exact ⟨state', Streams.stateOf_eq_some.mpr ⟨ref, h.table ht, ho'⟩, hk, hl⟩

/-- The latch of an identity is set by an append to a file with the identity. -/
theorem Did.latch (hd : P.Did a P') (hs : ∀ s ∈ P.sinks, P.Bound s) {id : Identity}
    {state state' : StreamState} (h : P.streams.stateOf id = some state)
    (h' : P'.streams.stateOf id = some state') (hl : state.latched ≠ state'.latched) :
    ∃ k record os s f, a = .append k record os ∧ P.sinks[k]? = some s ∧
      P.files[s.file]? = some f ∧ f.ident = id := by
  have same : P'.streams.stateOf id = P.streams.stateOf id → False := by
    intro hsame
    rw [hsame, h] at h'
    cases h'
    exact hl rfl
  cases hd with
  | nothing => exact absurd rfl same
  | opened => exact absurd (by rw [(P.opened_streams _).1]) same
  | constructed hf hreg =>
    have hstate := Streams.stateOf_register hreg id
    rw [if_neg] at hstate
    · exact absurd hstate same
    · rintro ⟨rfl, hnone⟩
      rw [h] at hnone
      cases hnone
  | @appended k s record os q hk heff =>
    obtain ⟨f, -, hf, ht, -, -⟩ := hs s (List.mem_of_getElem? hk)
    have hstate := Streams.stateOf_setLatch ht q.latched id
    by_cases he : f.ident = id
    · exact ⟨k, record, os, s, f, rfl, hk, hf, he⟩
    · rw [if_neg he] at hstate
      exact absurd hstate same
  | closed hk hopen => exact absurd rfl same
  | unlinked => exact absurd rfl same
  | created => exact absurd rfl same

/-- What the registry keeps apart, after a run of actions. -/
structure Isolated (actions : List Action) (P : Process) : Prop where
  /-- What was appended to a file is of one kind of record: lines and pieces of lines, and only the
  last of them is torn where `os.write` raises nothing but `OSError`s. -/
  oneKind : ∀ f ∈ P.files, ∃ kind b, f.content = f.origin ++ b ∧ Pieces kind b ∧
    ((∀ a ∈ actions, AppendsWhere OsBehaviour.OnlyOsErrors a) → ∃ latched, Framed kind b latched)
  /-- The sinks on one identity, and no others, hold the same state. -/
  shared : ∀ s ∈ P.sinks, ∀ s' ∈ P.sinks, ∀ f f' : OsFile, P.files[s.file]? = some f →
    P.files[s'.file]? = some f' → (s.state = s'.state ↔ f.ident = f'.ident)
  /-- It is the state of the identity, of the kind of the sink, and its latch is the one the
  appends of the sink see. -/
  own : ∀ s ∈ P.sinks, ∃ f state, P.files[s.file]? = some f ∧
    P.streams.stateOf f.ident = some state ∧ state.streamKind = s.kind ∧
    (P.streamOf s).latched = state.latched
  /-- A constructor that raises changes no state, sink or file. -/
  rejected : ∀ kind target os e, (P.construct kind target os).1 = .error e →
    (P.construct kind target os).2.streams = P.streams ∧
      (P.construct kind target os).2.sinks = P.sinks ∧
      ∀ (n : Nat) (f : OsFile), P.files[n]? = some f →
        (P.construct kind target os).2.files[n]? = some f
  /-- The latch of an identity is set by appends to its files only. -/
  latchOwn : ∀ a id state state', P.streams.stateOf id = some state →
    (P.perform a).2.streams.stateOf id = some state' → state.latched ≠ state'.latched →
    ∃ k record os s f, a = .append k record os ∧ P.sinks[k]? = some s ∧
      P.files[s.file]? = some f ∧ f.ident = id
  /-- It is never cleared, and the kind never changes. -/
  latchKept : ∀ {R : Process → Action → Prop} {later : List Action} {P' : Process},
    P.Run R later P' → ∀ id state, P.streams.stateOf id = some state →
      ∃ state', P'.streams.stateOf id = some state' ∧ state'.streamKind = state.streamKind ∧
        (state.latched = true → state'.latched = true)

/-- **Operational and audit records never share a file**, in every run of a process. -/
theorem isolated {R : Process → Action → Prop} {P₀ : Process} (h₀ : P₀.Start)
    {actions : List Action} (h : P₀.Run R actions P) : Isolated actions P where
  oneKind := by
    intro f hf
    obtain ⟨b, hb, hw⟩ := (h.inv kept_pieces h₀ fun a _ => by cases a <;> trivial).files f hf
    have framed : ∀ {state : StreamState}, P.streams.stateOf f.ident = some state →
        (∀ a ∈ actions, AppendsWhere OsBehaviour.OnlyOsErrors a) →
        Framed state.streamKind b state.latched := by
      intro state hstate hos
      obtain ⟨b', hb', hw'⟩ := (h.inv kept_framed h₀ hos).files f hf
      rw [hstate] at hw'
      cases List.append_cancel_left (hb.symm.trans hb')
      exact hw'
    cases hstate : P.streams.stateOf f.ident with
    | none =>
      rw [hstate] at hw
      subst hw
      exact ⟨.audit, [], hb, kept_pieces.nil .audit false,
        fun _ => ⟨false, kept_framed.nil .audit false⟩⟩
    | some state =>
      rw [hstate] at hw
      exact ⟨state.streamKind, b, hb, hw, fun hos => ⟨_, framed hstate hos⟩⟩
  shared := by
    intro s hs s' hs' f f' hf hf'
    have hinv := h.inv kept_pieces h₀ fun a _ => by cases a <;> trivial
    exact state_eq_iff (hinv.sinks s hs) (hinv.sinks s' hs') hf hf'
  own := by
    intro s hs
    have hinv := h.inv kept_pieces h₀ fun a _ => by cases a <;> trivial
    obtain ⟨f, state, hf, ht, ho, hk⟩ := hinv.sinks s hs
    exact ⟨f, state, hf, Streams.stateOf_eq_some.mpr ⟨_, ht, ho⟩, hk, latched_streamOf ho⟩
  rejected := fun kind target os e he => construct_error he
  latchOwn := by
    intro a id state state' hs hs' hl
    have hinv := h.inv kept_pieces h₀ fun a _ => by cases a <;> trivial
    exact (perform_did P a).latch hinv.sinks hs hs' hl
  latchKept := fun hlater id state hs => extends_stateOf hlater.extends hs

omit [PyRuntime] in
/-- A constructor where every call of the operating system succeeds. -/
def quietInit : InitOs := ⟨none, none, none, none, none, none⟩

omit [PyRuntime] in
/-- A process without files. -/
def fresh : Process := ⟨[], .empty, []⟩

omit [PyRuntime] in
theorem start_fresh : fresh.Start := ⟨rfl, rfl, by simp [fresh], by simp [fresh]⟩

omit [PyRuntime] in
theorem unused_fresh (ident : Identity) : fresh.Unused ident := by
  intro n f hf
  cases hf

omit [PyRuntime] in
/-- An audit sink on a new file, an append, and an operational sink that is refused. -/
theorem isolated_sampleIntent : ∃ P, @Run PyRuntime.plain (fun _ _ => True) fresh
    [.construct .audit (.new (0, 1)) quietInit,
      .append 0 (.audit sampleIntent) ⟨[.returned MAX_RECORD_BYTES], none⟩,
      .construct .operational (.existing 0) quietInit] P ∧ P.sinks.length = 1 ∧
    @Isolated PyRuntime.plain [.construct .audit (.new (0, 1)) quietInit,
      .append 0 (.audit sampleIntent) ⟨[.returned MAX_RECORD_BYTES], none⟩,
      .construct .operational (.existing 0) quietInit] P := by
  let _ := PyRuntime.plain
  have h₁ : Run (fun _ _ => True) fresh [.construct .audit (.new (0, 1)) quietInit] _ :=
    Run.nil.snoc (unused_fresh (0, 1)) trivial
  have h₂ := h₁.snoc (a := .append 0 (.audit sampleIntent) ⟨[.returned MAX_RECORD_BYTES], none⟩)
    trivial trivial
  have h₃ := h₂.snoc (a := .construct .operational (.existing 0) quietInit) ⟨_, rfl, rfl⟩ trivial
  exact ⟨_, h₃, rfl, isolated start_fresh h₃⟩

end Process

end NmLogging
