import NmLogging.FailOpen
import NmLogging.OneLine
import NmLogging.Registration

/-!
# Logs that share a registry

Events are registered and operational logs are made on one registry, in any order. Each log
brings the event of the package's own reports with it, unless another one has done so before
(`OperationalLog.withDefectEvent`). Whatever is registered meanwhile, the schema of that event is
the package's own, and nothing that a log has seen in the registry is ever replaced
(`Registries.Sound`). A log can be made whenever its names are valid (`Registries.made_iff`), and
each log that was made can report its defects, then and later (`Registries.one_line`).
-/

namespace NmLogging

/-! ## Making logs -/

namespace EventRegistry

/-- The first registry has grown to the second: what it has is there, and stays first. -/
def GrowsTo (registry registry' : EventRegistry) : Prop :=
  registry.schemas.entries <+: registry'.schemas.entries

/-- The event of the package's own reports has the package's own schema, if it is registered. -/
def OwnDefect (registry : EventRegistry) : Prop :=
  ∀ schema, (DEFECT_EVENT, schema) ∈ registry.schemas.entries → schema = DEFECT_SCHEMA

variable {registry registry' : EventRegistry}

theorem GrowsTo.get (h : registry.GrowsTo registry') {event : PyAtom} {schema : EventSchema}
    (hget : registry.get event = .ok schema) : registry'.get event = .ok schema := by
  cases event with
  | str s =>
    rw [EventRegistry.get] at hget
    cases hs : registry.schemas.get? (.str s) with
    | none =>
      rw [hs] at hget
      cases hget
    | some found =>
      rw [hs] at hget
      cases hget
      exact get_of_mem (h.subset (Dict.get?_eq_some.mp hs))
  | none => cases hget
  | bool b => cases hget
  | int i => cases hget
  | float f => cases hget
  | other tag => cases hget

/-- `register` takes no schema of the package's own event. -/
theorem register_grows (x : Registrand) (hown : registry.OwnDefect) :
    registry.GrowsTo (registry.registerAny x).2 ∧ (registry.registerAny x).2.OwnDefect := by
  rcases Registering.entries_run (.register x) registry with hsame | ⟨schema, s, -, -, htakes, hnew⟩
  · change (registry.registerAny x).2 = registry at hsame
    rw [hsame]
    exact ⟨List.prefix_rfl, hown⟩
  · change (registry.registerAny x).2.schemas.entries = _ at hnew
    refine ⟨?_, fun schema' hmem => ?_⟩
    · rw [GrowsTo, hnew]
      exact List.prefix_append _ _
    · rw [hnew] at hmem
      rcases List.mem_append.mp hmem with hmem | hmem
      · exact hown schema' hmem
      · cases List.mem_singleton.mp hmem
        exact absurd rfl htakes

/-- With the event of the package's own reports, a registry has its schema. -/
theorem withDefectEvent_grows (hown : registry.OwnDefect) :
    ∃ registry', OperationalLog.withDefectEvent registry = .ok registry' ∧
      registry.GrowsTo registry' ∧ registry'.OwnDefect ∧
      registry'.get DEFECT_EVENT = .ok DEFECT_SCHEMA := by
  by_cases hkey : DEFECT_EVENT ∈ registry.schemas.keys
  · obtain ⟨⟨id, schema⟩, hmem, rfl⟩ := List.mem_map.mp hkey
    obtain rfl := hown schema hmem
    refine ⟨registry, ?_, List.prefix_rfl, hown, get_of_mem hmem⟩
    rw [OperationalLog.withDefectEvent, if_pos]
    rw [contains, Dict.contains, decide_eq_true hkey]
    rfl
  · have hnew := Dict.entries_set_of_notMem hkey DEFECT_SCHEMA
    have hinsert : OperationalLog.withDefectEvent registry = registry.insert DEFECT_SCHEMA := by
      rw [OperationalLog.withDefectEvent, if_neg]
      · rfl
      · rw [contains, Dict.contains, decide_eq_false hkey]
        decide
    have hfresh : DEFECT_SCHEMA.eventId ∉ registry.schemas.keys := hkey
    rw [insert, dif_neg hfresh] at hinsert
    refine ⟨_, hinsert, ?_, fun schema hmem => ?_, get_of_mem ?_⟩
    · rw [GrowsTo]
      exact ⟨_, hnew.symm⟩
    · change (DEFECT_EVENT, schema) ∈ (registry.schemas.set DEFECT_EVENT DEFECT_SCHEMA).entries
        at hmem
      rw [hnew] at hmem
      rcases List.mem_append.mp hmem with hmem | hmem
      · exact hown schema hmem
      · cases List.mem_singleton.mp hmem
        rfl
    · change (DEFECT_EVENT, DEFECT_SCHEMA) ∈
        (registry.schemas.set DEFECT_EVENT DEFECT_SCHEMA).entries
      rw [hnew]
      exact List.mem_append_right _ (List.mem_singleton_self _)

end EventRegistry

namespace OperationalLog

variable {application emitter : PyAtom} {registry : EventRegistry} {strict : Bool}

/-- A log is made if its names are valid. Then its registry has the package's own event, and all
that it had. -/
theorem init_cases (application emitter : PyAtom) (strict : Bool) (hown : registry.OwnDefect) :
    (∃ log, init application emitter registry strict = .ok log ∧
      (log.application = application ∧ log.emitter = emitter ∧ log.strict = strict) ∧
      log.defectSchema = DEFECT_SCHEMA ∧ registry.GrowsTo log.registry ∧
      log.registry.OwnDefect) ∨
    ∃ e, init application emitter registry strict = .error e ∧
      (validateApplication application = .error e ∨ validateEmitter emitter = .error e) := by
  obtain ⟨registry', hwith, hgrows, hown', hget⟩ := EventRegistry.withDefectEvent_grows hown
  unfold init
  split
  · exact .inr ⟨_, rfl, .inl ‹_›⟩
  · exact .inr ⟨_, rfl, .inr ‹_›⟩
  · rename_i ha he
    refine .inl ⟨⟨application, emitter, registry', DEFECT_SCHEMA, strict, ha, he, hget⟩, ?_,
      ⟨rfl, rfl, rfl⟩, rfl, hgrows, hown'⟩
    rw [hwith]
    simp only [bind, Except.bind]
    split
    · rename_i schema hschema
      cases hschema.symm.trans hget
      rfl
    · rename_i e herror
      cases herror.symm.trans hget

end OperationalLog

/-! ## Histories -/

/-- What is done with a registry: an object is given to `register`, or an operational log is
made. -/
inductive RegistryCall where
  | register (x : Registrand)
  | operationalLog (application emitter : PyAtom) (strict : Bool)

/-- A registry, and the logs that were made on it. -/
structure Registries where
  registry : EventRegistry
  logs : List OperationalLog

namespace Registries

def empty : Registries := ⟨.empty, []⟩

/-- A call, and what it leaves. -/
def run (s : Registries) : RegistryCall → Except PyError Unit × Registries
  | .register x =>
    ((s.registry.registerAny x).1, { s with registry := (s.registry.registerAny x).2 })
  | .operationalLog application emitter strict =>
    match OperationalLog.init application emitter s.registry strict with
    | .ok log => (.ok (), ⟨log.registry, s.logs ++ [log]⟩)
    | .error e => (.error e, s)

/-- Calls made one after the other. -/
def after (s : Registries) (calls : List RegistryCall) : Registries :=
  calls.foldl (fun s c => (s.run c).2) s

/-- The registry has the package's own event, if any, and all that the logs have seen in it; and
each log has the package's own event. -/
structure Sound (s : Registries) : Prop where
  own : s.registry.OwnDefect
  logs : ∀ log ∈ s.logs, log.registry.GrowsTo s.registry ∧ log.defectSchema = DEFECT_SCHEMA

variable {s : Registries}

theorem Sound.run (h : s.Sound) (c : RegistryCall) : (s.run c).2.Sound := by
  cases c with
  | register x =>
    obtain ⟨hgrows, hown⟩ := EventRegistry.register_grows x h.own
    refine ⟨hown, fun log hlog => ?_⟩
    obtain ⟨hlog, hdefect⟩ := h.logs log hlog
    exact ⟨hlog.trans hgrows, hdefect⟩
  | operationalLog application emitter strict =>
    rcases OperationalLog.init_cases application emitter strict h.own with
      ⟨log, hinit, -, hdefect, hgrows, hown⟩ | ⟨e, hinit, -⟩
    · rw [Registries.run, hinit]
      refine ⟨hown, fun log' hlog' => ?_⟩
      rcases List.mem_append.mp hlog' with hlog' | hlog'
      · obtain ⟨hlog', hdefect'⟩ := h.logs log' hlog'
        exact ⟨hlog'.trans hgrows, hdefect'⟩
      · rw [List.mem_singleton.mp hlog']
        exact ⟨List.prefix_rfl, hdefect⟩
    · rw [Registries.run, hinit]
      exact h

theorem Sound.after (h : s.Sound) (calls : List RegistryCall) : (s.after calls).Sound := by
  induction calls generalizing s with
  | nil => exact h
  | cons c calls ih => exact ih (h.run c)

theorem empty_sound : empty.Sound :=
  ⟨fun _ h => (by cases h), fun _ h => (by cases h)⟩

/-- After any calls, a log can be made if and only if its names are valid. -/
theorem made_iff (calls : List RegistryCall) (application emitter : PyAtom) (strict : Bool) :
    (∃ log, (empty.after (calls ++ [.operationalLog application emitter strict])).logs =
      (empty.after calls).logs ++ [log] ∧ log.strict = strict) ↔
      validateApplication application = .ok () ∧ validateEmitter emitter = .ok () := by
  have hlast : empty.after (calls ++ [.operationalLog application emitter strict]) =
      ((empty.after calls).run (.operationalLog application emitter strict)).2 := by
    rw [Registries.after, List.foldl_append]
    rfl
  rw [hlast, run]
  rcases OperationalLog.init_cases application emitter strict (empty_sound.after calls).own with
    ⟨log, hinit, ⟨rfl, rfl, rfl⟩, -⟩ | ⟨e, hinit, hname⟩
  · rw [hinit]
    exact ⟨fun _ => ⟨log.applicationOk, log.emitterOk⟩, fun _ => ⟨log, rfl, rfl⟩⟩
  · rw [hinit]
    constructor
    · rintro ⟨log, hlogs, -⟩
      simp at hlogs
    · rintro ⟨ha, he⟩
      rcases hname with hname | hname
      · cases ha.symm.trans hname
      · cases he.symm.trans hname

end Registries

/-- A log whose registry has become another one. -/
def OperationalLog.over (log : OperationalLog) (registry : EventRegistry)
    (h : registry.get DEFECT_EVENT = .ok log.defectSchema) : OperationalLog :=
  { log with registry := registry, defectOk := h }

variable [PyRuntime]

/-- **Each log can report its defects.** After any calls on a new registry, whatever was given to
`register` and whichever logs were made, each log still finds what it found when it was made. And
while its sink works, each of its calls leaves one line: the record that it requests by what is
registered now, or the report of its defect. -/
theorem Registries.one_line {calls : List RegistryCall} {log : OperationalLog}
    (h : log ∈ (empty.after calls).logs) (hstrict : log.strict = false) :
    (∀ event schema, log.registry.get event = .ok schema →
      (empty.after calls).registry.get event = .ok schema) ∧
    ∃ hget : (empty.after calls).registry.get DEFECT_EVENT = .ok log.defectSchema,
      ∀ clock p severity event kw res p', (∀ n, (clock n).utcoffset = some 0) →
        p.file.closed = false → p.file.latched = false → ¬HasOverlong kw.fields.values →
        ((log.over _ hget).method severity event kw).Runs (production clock) p res p' →
          res = .ok () ∧ (log.over _ hget).Logged clock severity event kw.fields p p' := by
  obtain ⟨hgrows, hdefect⟩ := (empty_sound.after calls).logs log h
  refine ⟨fun event schema => hgrows.get, hgrows.get log.defectOk, ?_⟩
  intro clock p severity event kw res p' hclock hclosed hlatched hints hruns
  have hmethod : ∀ log' : OperationalLog, log'.method severity event kw =
      log'.emit severity event kw.fields := by
    intro log'
    cases severity <;> rfl
  rw [hmethod] at hruns
  exact hruns.post (OperationalLog.emit_one_line hstrict hdefect hclock hclosed hlatched hints)

section

omit [PyRuntime]

/-- An event is registered, an object without an `event_id` is refused, and a log is made. -/
def madeOnce : List RegistryCall :=
  [.register (.schema sampleSchema), .register Registering.bareObject] ++
    [.operationalLog (.str (lit "app")) (.str (lit "app")) false]

theorem one_line_madeOnce :
    let _ := PyRuntime.plain
    ∃ log ∈ (Registries.empty.after madeOnce).logs,
      ∃ (hget : (Registries.empty.after madeOnce).registry.get DEFECT_EVENT =
        .ok log.defectSchema) (res : Except PyError Unit) (p' : Production),
      ((log.over _ hget).method .info (.int 3) .empty).Runs (production fun _ => firstHour)
        ⟨⟨[], false, false⟩, .init, 0, []⟩ res p' ∧ res = .ok () := by
  intro _
  obtain ⟨log, hlogs, hstrict⟩ := (Registries.made_iff [.register (.schema sampleSchema),
    .register Registering.bareObject] (.str (lit "app")) (.str (lit "app")) false).mpr
      ⟨validateApplication_app, validateEmitter_app⟩
  have hmem : log ∈ (Registries.empty.after madeOnce).logs := by
    rw [madeOnce, hlogs]
    exact List.mem_append_right _ (List.mem_singleton_self _)
  obtain ⟨-, hget, hline⟩ := Registries.one_line hmem hstrict
  obtain ⟨res, p', hruns⟩ := exists_runs_production (fun _ => firstHour)
    ((log.over _ hget).method .info (.int 3) .empty) ⟨⟨[], false, false⟩, .init, 0, []⟩
  refine ⟨log, hmem, hget, res, p', hruns, ?_⟩
  refine (hline _ _ _ _ _ _ _ (fun _ => rfl) rfl rfl ?_ hruns).1
  rintro ⟨v, hv, -⟩
  cases hv

end

end NmLogging
