import NmLogging.Sinks.Isolation

/-!
# Replacing a file

A file that is removed can leave its identity to a new one, and the registry never
forgets an identity. `Process.recovers` says what follows where no new file is taken for
an old one: a constructor on a file of the run succeeds, and an append is refused for a
latch only behind a torn line in the same file. `Process.not_recovers` is a run where
the identity of a removed file is used again.
-/

namespace NmLogging

namespace Process

variable [PyRuntime]

/-! ## Recovery -/

/-- A constructor on a file without sinks finds no state for the identity of the file, or one of
its kind that is not latched. -/
def NewIdentity (P : Process) : Action → Prop
  | .construct kind target _ => (∀ s ∈ P.sinks, s.file ≠ (P.opened target).1) →
    ∀ f state, (P.opened target).2.files[(P.opened target).1]? = some f →
      P.streams.stateOf f.ident = some state → state.streamKind = kind ∧ state.latched = false
  | _ => True

/-- An append of the run left a torn line in the `n`-th file. -/
def TornIn (C : Process → Action → Prop) (P₀ : Process) (actions : List Action) (n : Nat) : Prop :=
  ∃ before k record os after P s l m, actions = before ++ .append k record os :: after ∧
    P₀.Run C before P ∧ P.sinks[k]? = some s ∧ s.file = n ∧ s.kind.encodeLine record = .ok l ∧
    0 < m ∧ m < l.length ∧
    ∀ f, P.files[n]? = some f → (P.perform (.append k record os)).2.files[n]? =
      some { f with content := f.content ++ l.take m }

/-- What a file that was created in the run offers, whatever was removed before. -/
structure Recovers (C : Process → Action → Prop) (P₀ : Process) (actions : List Action) (P : Process) :
    Prop where
  /-- A constructor on it succeeds, unless a sink of the other kind was made on it. -/
  constructs : ∀ kind target os, P.Allowed (.construct kind target os) →
    C P (.construct kind target os) → os.Succeeds → P₀.files.length ≤ (P.opened target).1 →
    (∀ s ∈ P.sinks, s.file = (P.opened target).1 → s.kind = kind) →
    (P.perform (.construct kind target os)).1 = .ok ()
  /-- An append of an open sink on it is not refused, unless a line in it is torn: it ends as the
  operating system answers. -/
  appends : ∀ k s record os l, P.sinks[k]? = some s → P₀.files.length ≤ s.file → s.closed = false →
    ¬TornIn C P₀ actions s.file → s.kind.encodeLine record = .ok l →
    (P.perform (.append k record os)).1 = os.result s.kind.errors s.kind.syncs l.length

/-! ## Files that exist or are still open -/

variable {C : Process → Action → Prop} {P P' P₀ : Process} {a : Action} {actions : List Action}

/-- A file that exists or is still open after an action did so before, or the action made it with
an identity that was not in use. -/
theorem Did.alive (hd : P.Did a P') (hheld : ∀ s ∈ P.sinks, s.closed = false → s.held = true)
    (ha : P.Allowed a) {n : Nat} {f' : OsFile} (hf' : P'.files[n]? = some f') (hal : P'.Alive n) :
    (∃ f, P.files[n]? = some f ∧ f.ident = f'.ident ∧ P.Alive n) ∨
      (n = P.files.length ∧ P.Unused f'.ident) := by
  have old : ∀ {f : OsFile}, P.files[n]? = some f → f.ident = f'.ident →
      (f'.linked = true → f.linked = true) → (∀ s ∈ P'.sinks, s.file = n → s.held = true → P.Alive n) →
      ∃ f, P.files[n]? = some f ∧ f.ident = f'.ident ∧ P.Alive n := by
    intro f hf hi hl hs
    refine ⟨f, hf, hi, ?_⟩
    rcases hal with ⟨g, hg, hlink⟩ | ⟨s, hm, hfile, hh⟩
    · cases hg.symm.trans hf'
      exact .inl ⟨f, hf, hl hlink⟩
    · exact hs s hm hfile hh
  have sink : ∀ s ∈ P.sinks, s.file = n → s.held = true → P.Alive n :=
    fun s hm hfile hh => .inr ⟨s, hm, hfile, hh⟩
  have modified : ∀ {m : Nat} {g : OsFile → OsFile}, P'.files = P.files.modify m g →
      P'.sinks = P.sinks → (∀ f, (g f).ident = f.ident ∧ ((g f).linked = true → f.linked = true)) →
      ∃ f, P.files[n]? = some f ∧ f.ident = f'.ident ∧ P.Alive n := by
    intro m g hfiles hsinks hg
    rw [hfiles, List.getElem?_modify] at hf'
    obtain ⟨f, hf, rfl⟩ := Option.map_eq_some_iff.mp hf'
    refine old hf ?_ ?_ (hsinks ▸ sink)
    · split
      · exact (hg f).1.symm
      · rfl
    · split
      · exact (hg f).2
      · exact fun h => h
  have added : ∀ {ident : Identity} {origin content : Bytes},
      P'.files = P.files ++ [⟨ident, origin, content, true⟩] → P.Unused ident →
      (∀ s ∈ P'.sinks, s.file = n → s.held = true → n < P.files.length → P.Alive n) →
      (∃ f, P.files[n]? = some f ∧ f.ident = f'.ident ∧ P.Alive n) ∨
        (n = P.files.length ∧ P.Unused f'.ident) := by
    intro ident origin content hfiles hun hs
    rcases getElem?_concat (hfiles ▸ hf') with hf | ⟨hn, hg⟩
    · exact .inl (old hf rfl (fun h => h) fun s hm hfile hh =>
        hs s hm hfile hh (List.getElem?_eq_some_iff.mp hf).1)
    · subst hg
      exact .inr ⟨hn, hun⟩
  cases hd with
  | nothing => exact .inl (old hf' rfl (fun h => h) sink)
  | @opened kind target os =>
    cases target with
    | existing m => exact .inl (old hf' rfl (fun h => h) sink)
    | new ident => exact added rfl ha fun s hm hfile hh _ => sink s hm hfile hh
  | @constructed kind target os f S ref hf hreg =>
    cases target with
    | existing m =>
      refine .inl (old hf' rfl (fun h => h) fun s hm hfile hh => ?_)
      rcases List.mem_append.mp hm with hm | hm
      · exact sink s hm hfile hh
      · rw [List.mem_singleton.mp hm] at hfile
        obtain rfl : m = n := hfile
        exact .inl ha
    | new ident =>
      refine added rfl ha fun s hm hfile hh hlt => ?_
      rcases List.mem_append.mp hm with hm | hm
      · exact sink s hm hfile hh
      · rw [List.mem_singleton.mp hm] at hfile
        obtain rfl : P.files.length = n := hfile
        omega
  | appended hs heff => exact .inl (modified rfl rfl fun _ => ⟨rfl, fun h => h⟩)
  | closed hs hopen =>
    refine .inl (old hf' rfl (fun h => h) fun s hm hfile hh => ?_)
    rcases List.mem_or_eq_of_mem_set hm with hm | rfl
    · exact sink s hm hfile hh
    · exact sink _ (List.mem_of_getElem? hs) hfile (hheld _ (List.mem_of_getElem? hs) hopen)
  | unlinked => exact .inl (modified rfl rfl fun _ => ⟨rfl, fun h => nomatch h⟩)
  | created => exact added rfl ha fun s hm hfile hh _ => sink s hm hfile hh

/-! ## Sinks and the latch of their file -/

/-- A file with a sink that exists or is still open after an action did so before. -/
theorem Did.alive_sink (hd : P.Did a P') (hheld : ∀ s ∈ P.sinks, s.closed = false → s.held = true)
    (ha : P.Allowed a) {s : SinkObject} (hs : P.Bound s) (hal : P'.Alive s.file) :
    P.Alive s.file := by
  obtain ⟨f, state, hf, -, -, -⟩ := hs
  obtain ⟨f', hf', -, -⟩ := hd.file hf
  rcases hd.alive hheld ha hf' hal with ⟨g, -, -, h⟩ | ⟨hn, -⟩
  · exact h
  · have := (List.getElem?_eq_some_iff.mp hf).1
    omega

/-- A sink after an action is an old one, perhaps closed, or the one that the action made. -/
theorem Did.sink_cases (hd : P.Did a P') {s : SinkObject} (hm : s ∈ P'.sinks) :
    (∃ t ∈ P.sinks, s.kind = t.kind ∧ s.file = t.file ∧ s.state = t.state ∧
      (s.closed = false → t.closed = false ∧ s.held = t.held)) ∨
    ∃ target os f S ref, a = .construct s.kind target os ∧ s = ⟨s.kind, s.file, ref, false, true⟩ ∧
      s.file = (P.opened target).1 ∧ (P.opened target).2.files[s.file]? = some f ∧
      P.streams.register f.ident s.kind = .ok (S, ref) ∧ P'.streams = S := by
  have old : ∀ {t : SinkObject}, t ∈ P.sinks → ∃ t' ∈ P.sinks, t.kind = t'.kind ∧
      t.file = t'.file ∧ t.state = t'.state ∧
      (t.closed = false → t'.closed = false ∧ t.held = t'.held) :=
    fun h => ⟨_, h, rfl, rfl, rfl, fun h => ⟨h, rfl⟩⟩
  cases hd with
  | nothing => exact .inl (old hm)
  | opened => exact .inl (old ((P.opened_streams _).2 ▸ hm))
  | @constructed kind target os f S ref hf hreg =>
    rcases List.mem_append.mp hm with hm | hm
    · exact .inl (old hm)
    · rw [List.mem_singleton.mp hm]
      exact .inr ⟨target, os, f, S, ref, rfl, rfl, rfl, hf, hreg, rfl⟩
  | appended hs heff => exact .inl (old hm)
  | @closed k t error hs hopen =>
    rcases List.mem_or_eq_of_mem_set hm with hm | rfl
    · exact .inl (old hm)
    · exact .inl ⟨t, List.mem_of_getElem? hs, rfl, rfl, rfl, fun h => nomatch h⟩
  | unlinked => exact .inl (old hm)
  | created => exact .inl (old hm)

theorem TornIn.snoc {n : Nat} (h : TornIn C P₀ actions n) (a : Action) :
    TornIn C P₀ (actions ++ [a]) n := by
  obtain ⟨before, k, record, os, after, P, s, l, m, rfl, h⟩ := h
  exact ⟨before, k, record, os, after ++ [a], P, s, l, m, by simp, h⟩

/-- The invariant of a run where no identity is taken for an old one. -/
structure Recovering (C : Process → Action → Prop) (P₀ : Process) (actions : List Action)
    (P : Process) : Prop where
  bound : ∀ s ∈ P.sinks, P.Bound s
  held : ∀ s ∈ P.sinks, s.closed = false → s.held = true
  unique : ∀ (m n : Nat) (f g : OsFile), P.files[m]? = some f → P.files[n]? = some g →
    P.Alive m → P.Alive n → f.ident = g.ident → m = n
  torn : ∀ s ∈ P.sinks, P.Alive s.file → (P.streamOf s).latched = true → TornIn C P₀ actions s.file

/-- The latch that a sink sees is set by an append through a sink with its state. -/
theorem Did.latched_cases (hd : P.Did a P') {s t : SinkObject} (hb : P.Bound t)
    (hstate : s.state = t.state) (hl : (P'.streamOf s).latched = true) :
    (P.streamOf t).latched = true ∨
      ∃ k u record os q, a = .append k record os ∧ P.sinks[k]? = some u ∧ u.state = t.state ∧
        (SinkAppend.mk u.kind k record os).Effect (P.streamOf u) q ∧ q.latched = true ∧
        P' = { P with
          files := P.files.modify u.file fun f => { f with content := q.content }
          streams := P.streams.setLatch u.state q.latched } := by
  obtain ⟨f, state, -, -, hobj, -⟩ := hb
  have kept : P'.streams.objects[t.state]? = P.streams.objects[t.state]? →
      (P.streamOf t).latched = true := by
    intro h
    rw [hobj, ← hstate] at h
    rw [latched_streamOf h] at hl
    rw [latched_streamOf hobj, hl]
  cases hd with
  | nothing => exact .inl (kept rfl)
  | opened => exact .inl (kept (by rw [(P.opened_streams _).1]))
  | constructed hf hreg =>
    refine .inl (kept ?_)
    rcases Streams.register_ok hreg with ⟨-, -, hobj', -⟩ | ⟨rfl, -, -⟩
    · rw [hobj', List.getElem?_append_left (List.getElem?_eq_some_iff.mp hobj).1]
    · rfl
  | @appended k u record os q hk heff =>
    by_cases hsame : u.state = t.state
    · refine .inr ⟨k, u, record, os, q, rfl, hk, hsame, heff, ?_, rfl⟩
      have hnew : (P.streams.setLatch u.state q.latched).objects[s.state]? =
          some { state with latched := q.latched } := by
        simp only [Streams.setLatch, List.getElem?_modify, hstate, hobj, hsame, if_true,
          Option.map_eq_map, Option.map_some]
      rw [latched_streamOf hnew] at hl
      exact hl
    · refine .inl (kept ?_)
      simp only [Streams.setLatch, List.getElem?_modify, hsame, if_false, Option.map_eq_map,
        Option.map_id_fun', id]
  | closed hk hopen => exact .inl (kept rfl)
  | unlinked => exact .inl (kept rfl)
  | created => exact .inl (kept rfl)

/-- An append that latches a stream leaves a torn line in the file of its sink. -/
theorem Recovering.torn_append (h : Recovering C P₀ actions P) (hrun : P₀.Run C actions P)
    {k : Nat} {u s : SinkObject} {record : Record} {os : OsBehaviour} (hk : P.sinks[k]? = some u)
    {q : Stream} (hs : s ∈ P.sinks) (hstate : u.state = s.state) (hal : P.Alive s.file)
    (hl : (P.streamOf s).latched = false)
    (heff : (SinkAppend.mk u.kind k record os).Effect (P.streamOf u) q) (hq : q.latched = true)
    (hP : (P.perform (.append k record os)).2 = { P with
      files := P.files.modify u.file fun f => { f with content := q.content }
      streams := P.streams.setLatch u.state q.latched }) :
    TornIn C P₀ (actions ++ [.append k record os]) s.file := by
  have hu := List.mem_of_getElem? hk
  obtain ⟨f, state, hf, -, hobj, -⟩ := h.bound s hs
  obtain ⟨g, -, hg, -, -, -⟩ := h.bound u hu
  have hlu : (P.streamOf u).latched = false := by
    rw [latched_streamOf (hstate ▸ hobj), ← latched_streamOf hobj, hl]
  cases heff with
  | none hcont hlatch =>
    rw [hlatch, hlu] at hq
    cases hq
  | @wrote l m hline hopen _ _ hcont htorn _ =>
    obtain ⟨hpos, hlt⟩ := htorn hq
    have hfile : u.file = s.file := by
      refine h.unique _ _ g f hg hf (.inr ⟨u, hu, rfl, h.held u hu hopen⟩) hal ?_
      exact (state_eq_iff (h.bound u hu) (h.bound s hs) hg hf).mp hstate
    refine ⟨actions, k, record, os, [], P, u, l, m, rfl, hrun, hk, hfile, hline, hpos, hlt, ?_⟩
    intro f' hf'
    have hcont : q.content = f'.content ++ l.take m := by
      rw [hcont, content_streamOf (hfile ▸ hf')]
    rw [hP]
    show (P.files.modify u.file _)[s.file]? = _
    rw [List.getElem?_modify, hfile, hf']
    simp only [if_true, Option.map_eq_map, Option.map_some, hcont]

/-- An action keeps the invariant. -/
theorem Recovering.step (h : Recovering NewIdentity P₀ actions P)
    (hrun : P₀.Run NewIdentity actions P) (ha : P.Allowed a) (hC : NewIdentity P a) :
    Recovering NewIdentity P₀ (actions ++ [a]) (P.perform a).2 := by
  have hd := perform_did P a
  refine ⟨hd.sinks h.bound, ?_, ?_, ?_⟩
  · intro s hm hopen
    rcases hd.sink_cases hm with ⟨t, ht, -, -, -, hc⟩ | ⟨_, _, _, _, _, -, hs, -⟩
    · obtain ⟨hc, hheld⟩ := hc hopen
      rw [hheld]
      exact h.held t ht hc
    · rw [hs]
  · intro m n f g hf hg hm hn hident
    rcases hd.alive h.held ha hf hm with ⟨f₀, hf₀, hfi, hm₀⟩ | ⟨hm', hun⟩ <;>
      rcases hd.alive h.held ha hg hn with ⟨g₀, hg₀, hgi, hn₀⟩ | ⟨hn', hun'⟩
    · exact h.unique m n f₀ g₀ hf₀ hg₀ hm₀ hn₀ (by rw [hfi, hgi, hident])
    · exact absurd (by rw [hfi, hident]) (hun' m f₀ hf₀ hm₀)
    · exact absurd (by rw [hgi, hident]) (hun n g₀ hg₀ hn₀)
    · rw [hm', hn']
  · intro s hm hal hl
    -- through an old sink with the same file and state
    have old : ∀ t ∈ P.sinks, s.file = t.file → s.state = t.state →
        TornIn NewIdentity P₀ (actions ++ [a]) s.file := by
      intro t ht hfile hstate
      have halt : P.Alive t.file := hd.alive_sink h.held ha (h.bound t ht) (hfile ▸ hal)
      rw [hfile]
      cases hlt : (P.streamOf t).latched with
      | true => exact (h.torn t ht halt hlt).snoc a
      | false =>
        rcases hd.latched_cases (h.bound t ht) hstate hl with
          hl' | ⟨k, u, record, os, q, rfl, hk, hsame, heff, hq, hP⟩
        · rw [hlt] at hl'
          cases hl'
        · exact h.torn_append hrun hk ht hsame halt hlt heff hq hP
    rcases hd.sink_cases hm with ⟨t, ht, -, hfile, hstate, -⟩ |
      ⟨target, os, f, S, ref, rfl, hs, hfile, hf, hreg, hS⟩
    · exact old t ht hfile hstate
    · have hstate : s.state = ref := by rw [hs]
      by_cases hsinks : ∃ t ∈ P.sinks, t.file = s.file
      · obtain ⟨t, ht, hft⟩ := hsinks
        refine old t ht hft.symm ?_
        obtain ⟨g, state, hg, htab, -, -⟩ := h.bound t ht
        have hg' := files_opened target hg
        rw [hft, hf] at hg'
        cases hg'
        rcases Streams.register_ok hreg with ⟨hnone, -, -, -⟩ | ⟨-, hsome, -⟩
        · rw [hnone] at htab
          cases htab
        · rw [hsome] at htab
          rw [hstate]
          exact Option.some.inj htab
      · have hnew := hC (fun t ht => hfile ▸ fun he => hsinks ⟨t, ht, he⟩) f
        rcases Streams.register_ok hreg with ⟨hnone, hr, hobj, -⟩ | ⟨rfl, hsome, hkind⟩
        · have : (P.perform (.construct s.kind target os)).2.streams.objects[s.state]? =
              some (.init s.kind) := by rw [hS, hstate, hobj, hr]; simp
          rw [latched_streamOf this] at hl
          cases hl
        · obtain ⟨state, ho, -⟩ := Option.map_eq_some_iff.mp hkind
          have : (P.perform (.construct s.kind target os)).2.streams.objects[s.state]? =
              some state := by rw [hS, hstate, ho]
          rw [latched_streamOf this,
            (hnew state (hfile ▸ hf) (Streams.stateOf_eq_some.mpr ⟨ref, hsome, ho⟩)).2] at hl
          cases hl

/-- The invariant holds throughout a run. -/
theorem Run.recovering (h₀ : P₀.Start) (h : P₀.Run NewIdentity actions P) :
    Recovering NewIdentity P₀ actions P := by
  induction h with
  | nil =>
    refine ⟨by simp [h₀.sinks], by simp [h₀.sinks], ?_, by simp [h₀.sinks]⟩
    exact fun m n f g hf hg _ _ hident => h₀.unique m n f g hf hg hident
  | snoc hrun ha hC ih => exact ih.step hrun ha hC

omit [PyRuntime] in
/-- The file that a constructor opens. -/
theorem Allowed.opened [PyRuntime] {kind : StreamKind} {target : Target} {os : InitOs}
    (h : P.Allowed (.construct kind target os)) :
    ∃ f, (P.opened target).2.files[(P.opened target).1]? = some f := by
  cases target with
  | existing n =>
    obtain ⟨f, hf, -⟩ := h
    exact ⟨f, hf⟩
  | new ident => exact ⟨⟨ident, [], [], true⟩, by simp [Process.opened]⟩

/-- A constructor finds no state of the other kind. -/
theorem Recovering.registers (h : Recovering C P₀ actions P) {kind : StreamKind} {target : Target}
    {os : InitOs} (hC : NewIdentity P (.construct kind target os))
    (hkinds : ∀ s ∈ P.sinks, s.file = (P.opened target).1 → s.kind = kind) {f : OsFile}
    (hf : (P.opened target).2.files[(P.opened target).1]? = some f) {e : PyError} :
    P.streams.register f.ident kind ≠ .error e := by
  intro hreg
  obtain ⟨ref, hsome, hkind⟩ := Streams.register_error hreg
  by_cases hsinks : ∃ s ∈ P.sinks, s.file = (P.opened target).1
  · obtain ⟨s, hs, hfile⟩ := hsinks
    obtain ⟨g, state, hg, htab, hobj, hk⟩ := h.bound s hs
    have hg' := files_opened target hg
    rw [hfile, hf] at hg'
    cases hg'
    rw [hsome] at htab
    cases htab
    rw [hobj] at hkind
    exact hkind (congrArg some (hk.trans (hkinds s hs hfile)))
  · have hobj := List.getElem?_eq_getElem (Streams.lt_of_get? hsome)
    have hnew := hC (fun s hs hfile => hsinks ⟨s, hs, hfile⟩) f _ hf
      (Streams.stateOf_eq_some.mpr ⟨ref, hsome, hobj⟩)
    rw [hobj] at hkind
    exact hkind (congrArg some hnew.1)

/-! ## Replacement -/

/-- **Replacing a file recovers**, in every run where a constructor on a file without sinks finds
no state of an old one. -/
theorem recovers (h₀ : P₀.Start) (h : P₀.Run NewIdentity actions P) :
    Recovers NewIdentity P₀ actions P where
  constructs := by
    intro kind target os ha hC hos _ hkinds
    have hinv := h.recovering h₀
    rcases P.construct_cases kind target os with ⟨e, -, hos'⟩ | ⟨e, -, hreg⟩ | ⟨f, S, ref, -, -, hc⟩
    · exact absurd hos hos'
    · obtain ⟨f, hf⟩ := ha.opened
      obtain ⟨e', he⟩ := hreg hos f hf
      rw [(P.opened_streams target).1] at he
      exact absurd he (hinv.registers hC hkinds hf)
    · show (P.construct kind target os).1 = _
      rw [hc]
  appends := by
    intro k s record os l hk _ hopen htorn hline
    have hinv := h.recovering h₀
    have hm := List.mem_of_getElem? hk
    have hl : (P.streamOf s).latched = false := by
      rw [← Bool.not_eq_true]
      exact fun hl => htorn (hinv.torn s hm (.inr ⟨s, hm, rfl, hinv.held s hm hopen⟩) hl)
    rw [perform, hk]
    exact (SinkAppend.run_open (a := ⟨s.kind, k, record, os⟩) hline hopen hl).1

omit [PyRuntime] in
/-- An identity that no file has. -/
theorem unused_of_ne {ident : Identity} (h : ∀ f ∈ P.files, f.ident ≠ ident) : P.Unused ident :=
  fun _ _ hf _ => h _ (List.mem_of_getElem? hf)

omit [PyRuntime] in
/-- An audit sink on a new file tears a line and is closed, the file is removed, and an
operational sink is made on a new one. -/
theorem recovers_sampleIntent : ∃ P, @Run PyRuntime.plain NewIdentity fresh
    [.construct .audit (.new (0, 1)) quietInit,
      .append 0 (.audit sampleIntent) ⟨[.returned 1, .returned 0], none⟩,
      .close 0 none, .unlink 0, .construct .operational (.new (0, 2)) quietInit] P ∧
    P.sinks.map SinkObject.kind = [.audit, .operational] ∧
    @Recovers PyRuntime.plain NewIdentity fresh
      [.construct .audit (.new (0, 1)) quietInit,
        .append 0 (.audit sampleIntent) ⟨[.returned 1, .returned 0], none⟩,
        .close 0 none, .unlink 0, .construct .operational (.new (0, 2)) quietInit] P := by
  let _ := PyRuntime.plain
  have h₁ : Run NewIdentity fresh [.construct .audit (.new (0, 1)) quietInit] _ :=
    Run.nil.snoc (unused_fresh (0, 1)) fun _ f state _ hs => nomatch hs
  have h₂ := h₁.snoc (a := .append 0 (.audit sampleIntent) ⟨[.returned 1, .returned 0], none⟩)
    trivial trivial
  have h₃ := (h₂.snoc (a := .close 0 none) trivial trivial).snoc (a := .unlink 0) trivial trivial
  have h₄ := h₃.snoc (a := .construct .operational (.new (0, 2)) quietInit) (unused_of_ne ?_) ?_
  · exact ⟨_, h₄, rfl, recovers start_fresh h₄⟩
  · intro f hf
    rw [List.mem_singleton.mp hf]
    exact show ((0, 1) : Identity) ≠ (0, 2) by decide
  · intro _ f state hf hs
    obtain rfl := Option.some.inj hf
    cases hs

omit [PyRuntime] in
/-- The process after an audit sink was made on a file, and closed, and the file removed. -/
def removed : Process where
  files := [⟨(0, 1), [], [], false⟩]
  streams := ⟨[.init .audit], Dict.empty.set (0, 1) 0, rfl⟩
  sinks := [⟨.audit, 0, 0, true, false⟩]

omit [PyRuntime] in
theorem run_removed : @Run PyRuntime.plain (fun _ _ => True) fresh
    [.construct .audit (.new (0, 1)) quietInit, .close 0 none, .unlink 0] removed := by
  let _ := PyRuntime.plain
  have h : Run (fun _ _ => True) fresh [.construct .audit (.new (0, 1)) quietInit] _ :=
    Run.nil.snoc (unused_fresh (0, 1)) trivial
  exact (h.snoc (a := .close 0 none) trivial trivial).snoc (a := .unlink 0) trivial trivial

omit [PyRuntime] in
theorem not_recovers : ¬∀ (P₀ : Process) (actions : List Action) (P : Process), P₀.Start →
    @Run PyRuntime.plain (fun _ _ => True) P₀ actions P →
    @Recovers PyRuntime.plain (fun _ _ => True) P₀ actions P := by
  let _ := PyRuntime.plain
  intro h
  have hr := (h fresh _ removed start_fresh run_removed).constructs .operational (.new (0, 1)) quietInit
  have hok := hr ?_ trivial ⟨rfl, rfl, rfl, rfl, rfl⟩ (Nat.zero_le _) ?_
  · cases hok
  · rintro (_ | n) f hf (⟨g, hg, hlinked⟩ | ⟨s, hs, -, hheld⟩)
    · cases hg
      cases hlinked
    · rw [List.mem_singleton.mp hs] at hheld
      cases hheld
    · cases hg
    · cases hf
  · intro s hs hfile
    rw [List.mem_singleton.mp hs] at hfile
    cases hfile

end Process

end NmLogging
