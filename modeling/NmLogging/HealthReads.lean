import NmLogging.Exceptions
import NmLogging.Framework.Linearizable
import NmLogging.Health

/-!
# Health as it is polled

`LoggingHealth` of `health.py` down to its fields: each method takes the lock, reads and writes
fields one at a time, and releases it. Many threads mark while others poll. What a poll gets,
`degraded` or a whole `snapshot`, is the health after some of the calls made, one after the
other: all that had ended when the poll began are among them (`LoggingHealth.polls_atomic`), so
no snapshot is torn, and the totals of a later one are no lower (`LoggingHealth.polls_monotone`).
-/

open Relation (ReflTransGen)

namespace NmLogging

/-! ## Fields -/

/-- The accesses to the fields of a `LoggingHealth`. -/
inductive HealthOp where
  | getDegraded
  | setDegraded (degraded : Bool)
  | getTotalFailures
  | setTotalFailures (n : Nat)
  | getTotalRecoveries
  | setTotalRecoveries (n : Nat)
  | getLastFailureKind
  | setLastFailureKind (kind : Option PyStr)

def healthSig : Sig where
  Op := HealthOp
  Ret
    | .getDegraded => Bool
    | .getTotalFailures | .getTotalRecoveries => Nat
    | .getLastFailureKind => Option PyStr
    | .setDegraded _ | .setTotalFailures _ | .setTotalRecoveries _ | .setLastFailureKind _ => Unit

abbrev HealthProg := Prog healthSig PyError

/-- What an access returns, and what it does. -/
def healthStep (health : LoggingHealth) : (o : HealthOp) → healthSig.Ret o × LoggingHealth
  | .getDegraded => (health.degraded, health)
  | .setDegraded degraded => ((), { health with degraded := degraded })
  | .getTotalFailures => (health.totalFailures, health)
  | .setTotalFailures n => ((), { health with totalFailures := n })
  | .getTotalRecoveries => (health.totalRecoveries, health)
  | .setTotalRecoveries n => ((), { health with totalRecoveries := n })
  | .getLastFailureKind => (health.lastFailureKind, health)
  | .setLastFailureKind kind => ((), { health with lastFailureKind := kind })

/-- `HealthSnapshot`. -/
structure HealthSnapshot where
  degraded : Bool
  totalFailures : Nat
  totalRecoveries : Nat
  lastFailureKind : Option PyStr
  deriving DecidableEq

/-! ## Methods -/

/-- The calls of the methods of a `LoggingHealth`. -/
inductive HealthCall where
  | markDegraded (kind : PyStr)
  | markHealthy
  | degraded
  | snapshot
  deriving DecidableEq

/-- What the methods return. -/
inductive HealthAnswer where
  | none
  | degraded (b : Bool)
  | snapshot (s : HealthSnapshot)
  deriving DecidableEq

def getDegraded : HealthProg Bool := Prog.op (S := healthSig) .getDegraded Prog.ret

def getTotalFailures : HealthProg Nat := Prog.op (S := healthSig) .getTotalFailures Prog.ret

def getTotalRecoveries : HealthProg Nat := Prog.op (S := healthSig) .getTotalRecoveries Prog.ret

def getLastFailureKind : HealthProg (Option PyStr) :=
  Prog.op (S := healthSig) .getLastFailureKind Prog.ret

def setDegraded (degraded : Bool) : HealthProg Unit :=
  Prog.op (S := healthSig) (.setDegraded degraded) Prog.ret

def setTotalFailures (n : Nat) : HealthProg Unit :=
  Prog.op (S := healthSig) (.setTotalFailures n) Prog.ret

def setTotalRecoveries (n : Nat) : HealthProg Unit :=
  Prog.op (S := healthSig) (.setTotalRecoveries n) Prog.ret

def setLastFailureKind (kind : Option PyStr) : HealthProg Unit :=
  Prog.op (S := healthSig) (.setLastFailureKind kind) Prog.ret

/-- The bodies of the methods, under the lock. -/
def HealthCall.body : HealthCall → HealthProg HealthAnswer
  | .markDegraded kind => do
    setDegraded true
    let failures ← getTotalFailures
    setTotalFailures (failures + 1)
    setLastFailureKind (some kind)
    return .none
  | .markHealthy => do
    let degraded ← getDegraded
    if degraded then
      setDegraded false
      let recoveries ← getTotalRecoveries
      setTotalRecoveries (recoveries + 1)
      return .none
    else
      return .none
  | .degraded => do
    let degraded ← getDegraded
    return .degraded degraded
  | .snapshot => do
    let degraded ← getDegraded
    let totalFailures ← getTotalFailures
    let totalRecoveries ← getTotalRecoveries
    let lastFailureKind ← getLastFailureKind
    return .snapshot { degraded, totalFailures, totalRecoveries, lastFailureKind }

/-- Calls of the methods, on threads of their own. -/
abbrev healthSystem : System (lockSig healthSig) PyError HealthAnswer HealthCall
    (Locked LoggingHealth) :=
  guardedSystem HealthCall.body (Prog.answering healthStep)

/-! ## What a call does by itself -/

/-- `snapshot`, of a health that nobody changes. -/
def LoggingHealth.snapshot (health : LoggingHealth) : HealthSnapshot :=
  ⟨health.degraded, health.totalFailures, health.totalRecoveries, health.lastFailureKind⟩

/-- The health after a call. -/
def HealthCall.apply : HealthCall → LoggingHealth → LoggingHealth
  | .markDegraded kind, health => health.markDegraded kind
  | .markHealthy, health => health.markHealthy
  | .degraded, health | .snapshot, health => health

/-- What a call returns. -/
def HealthCall.answer : HealthCall → LoggingHealth → HealthAnswer
  | .markDegraded _, _ | .markHealthy, _ => .none
  | .degraded, health => .degraded health.degraded
  | .snapshot, health => .snapshot health.snapshot

theorem run_body (c : HealthCall) (health : LoggingHealth) :
    c.body.run healthStep health = (.ok (c.answer health), c.apply health) := by
  cases c with
  | markDegraded kind => rfl
  | markHealthy =>
    obtain ⟨degraded, failures, recoveries, kind⟩ := health
    cases degraded <;> rfl
  | degraded => rfl
  | snapshot => rfl

/-! ## Calls one after the other -/

/-- A call of a history. -/
abbrev HealthEntry := CallEntry HealthCall PyError HealthAnswer

/-- The health after the calls of a history. -/
def LoggingHealth.after (health : LoggingHealth) (hist : List HealthEntry) : LoggingHealth :=
  hist.foldl (fun health e => e.method.apply health) health

theorem LoggingHealth.after_append (health : LoggingHealth) (xs ys : List HealthEntry) :
    health.after (xs ++ ys) = (health.after xs).after ys :=
  List.foldl_append

theorem atomic_after {health health' : LoggingHealth} {hist : List HealthEntry}
    (h : Atomic HealthCall.body (Prog.answering healthStep) health hist health') :
    health' = health.after hist := by
  refine h.inv (I := fun hist health' => health' = health.after hist) rfl ?_
  rintro hist _ e health' rfl hruns
  rw [LoggingHealth.after_append]
  exact (congrArg Prod.snd ((run_body e.method _).symm.trans hruns.run_eq)).symm

/-- What a call of a history returned. -/
theorem answer_of_atomic {health health' : LoggingHealth} {before after : List HealthEntry}
    {e : HealthEntry}
    (h : Atomic HealthCall.body (Prog.answering healthStep) health (before ++ e :: after) health') :
    e.res = .ok (e.method.answer (health.after before)) := by
  obtain ⟨q, q', hbefore, hruns⟩ := h.split
  rw [← atomic_after hbefore]
  exact (congrArg Prod.fst ((run_body e.method _).symm.trans hruns.run_eq)).symm

variable {cfg cfg' : Config (lockSig healthSig) PyError HealthAnswer HealthCall
  (Locked LoggingHealth)} {i : Nat} {c : HealthCall} {res : Except PyError HealthAnswer}

/-- Where the calls of a run have the history `hist`, and the run goes on, a call that begins
after and ends gets its answer from the health after `hist` and some more calls. -/
theorem exists_before {hist : List HealthEntry}
    (h : Linearizes HealthCall.body (Prog.answering healthStep) .init cfg hist)
    (hr : ReflTransGen healthSystem.Step cfg cfg') (hi : cfg.calls.length ≤ i)
    (he : cfg'.Ended i c res) :
    ∃ more, res = .ok (c.answer (LoggingHealth.init.after (hist ++ more))) ∧
      ((hist ++ more).map CallEntry.call).Nodup ∧
      ∀ e ∈ hist ++ more, ∃ p, cfg'.calls[e.call]? = some (e.method, p) := by
  obtain ⟨rest, h'⟩ := h.later hr
  rcases List.mem_append.mp (h'.ended he) with hmem | hmem
  · obtain ⟨p, hp⟩ := h.made _ hmem
    exact absurd (List.getElem?_eq_some_iff.mp hp).1 (Nat.not_lt_of_le hi)
  · obtain ⟨more, after, rfl⟩ := List.append_of_mem hmem
    obtain ⟨base, hatomic, -, -⟩ := h'.atomic
    rw [← List.append_assoc] at hatomic
    refine ⟨more, answer_of_atomic hatomic, ?_, fun e he => h'.made e ?_⟩
    · have hnodup := h'.nodup
      rw [← List.append_assoc, List.map_append] at hnodup
      exact (List.nodup_append.mp hnodup).1
    · rw [← List.append_assoc]
      exact List.mem_append_left _ he

/-- **What a poll gets.** In any run of calls from a new health, interleaved access by access, a
call that begins after a moment `cfg` and ends gets the answer that the health gives after some
of the calls made, each once and one after the other. All calls that had ended at that moment
are among them, with what they returned. -/
theorem LoggingHealth.polls_atomic (h : healthSystem.Reachable ⟨none, .init⟩ cfg)
    (hr : ReflTransGen healthSystem.Step cfg cfg') (hi : cfg.calls.length ≤ i)
    (he : cfg'.Ended i c res) :
    ∃ before : List HealthEntry, res = .ok (c.answer (LoggingHealth.init.after before)) ∧
      (before.map CallEntry.call).Nodup ∧
      (∀ e ∈ before, ∃ p, cfg'.calls[e.call]? = some (e.method, p)) ∧
      ∀ j d res', cfg.Ended j d res' → ⟨j, d, res'⟩ ∈ before := by
  obtain ⟨hist, hlin⟩ := exists_linearizes h
  obtain ⟨more, hres, hnodup, hmade⟩ := exists_before hlin hr hi he
  exact ⟨_, hres, hnodup, hmade, fun j d res' hj => List.mem_append_left _ (hlin.ended hj)⟩

/-! ## One poll after another -/

/-- The first health comes before the second. Its totals are no higher, and where they are the
same, nothing has happened in between. -/
structure LoggingHealth.Precedes (health health' : LoggingHealth) : Prop where
  failures : health.totalFailures ≤ health'.totalFailures
  recoveries : health.totalRecoveries ≤ health'.totalRecoveries
  churn : health.totalFailures = health'.totalFailures →
    health.totalRecoveries = health'.totalRecoveries → health = health'

namespace LoggingHealth.Precedes

variable {health health' health'' : LoggingHealth}

theorem refl (health : LoggingHealth) : health.Precedes health :=
  ⟨Nat.le_refl _, Nat.le_refl _, fun _ _ => rfl⟩

theorem trans (h : health.Precedes health') (h' : health'.Precedes health'') :
    health.Precedes health'' := by
  have hf := h.failures
  have hf' := h'.failures
  have hr := h.recoveries
  have hr' := h'.recoveries
  refine ⟨hf.trans hf', hr.trans hr', fun ef er => ?_⟩
  exact (h.churn (by omega) (by omega)).trans (h'.churn (by omega) (by omega))

theorem apply (c : HealthCall) (health : LoggingHealth) : health.Precedes (c.apply health) := by
  cases c with
  | markDegraded kind =>
    refine ⟨Nat.le_succ _, Nat.le_refl _, fun ef _ => ?_⟩
    exact absurd ef (Nat.ne_of_lt (Nat.lt_succ_self _))
  | markHealthy =>
    rw [HealthCall.apply, LoggingHealth.markHealthy]
    split
    · refine ⟨Nat.le_refl _, Nat.le_succ _, fun _ er => ?_⟩
      exact absurd er (Nat.ne_of_lt (Nat.lt_succ_self _))
    · exact refl health
  | degraded => exact refl health
  | snapshot => exact refl health

theorem after (health : LoggingHealth) (hist : List HealthEntry) :
    health.Precedes (health.after hist) := by
  induction hist generalizing health with
  | nil => exact refl health
  | cons e hist ih => exact (apply e.method health).trans (ih (e.method.apply health))

end LoggingHealth.Precedes

/-- **Polls are monotone.** Of two snapshots, of which the second is begun after the first was
returned, the second has no lower totals, and unless it has a higher one, it is the same: what
happened in between can always be told. -/
theorem LoggingHealth.polls_monotone (h : healthSystem.Reachable ⟨none, .init⟩ cfg) {j : Nat}
    {snap snap' : HealthSnapshot} (hi : cfg.Ended j .snapshot (.ok (.snapshot snap)))
    (hr : ReflTransGen healthSystem.Step cfg cfg') (hj : cfg.calls.length ≤ i)
    (he : cfg'.Ended i .snapshot (.ok (.snapshot snap'))) :
    snap.totalFailures ≤ snap'.totalFailures ∧ snap.totalRecoveries ≤ snap'.totalRecoveries ∧
      (snap.totalFailures = snap'.totalFailures →
        snap.totalRecoveries = snap'.totalRecoveries → snap = snap') := by
  obtain ⟨hist, hlin⟩ := exists_linearizes h
  obtain ⟨before, after, rfl⟩ := List.append_of_mem (hlin.ended hi)
  obtain ⟨base, hatomic, -, -⟩ := hlin.atomic
  obtain ⟨more, hres, -, -⟩ := exists_before hlin hr hj he
  cases answer_of_atomic hatomic
  cases hres
  rw [List.append_assoc, LoggingHealth.after_append]
  have hprecedes := LoggingHealth.Precedes.after (LoggingHealth.init.after before)
    (⟨j, .snapshot, .ok (.snapshot (LoggingHealth.init.after before).snapshot)⟩ :: after ++ more)
  exact ⟨hprecedes.failures, hprecedes.recoveries,
    fun ef er => congrArg LoggingHealth.snapshot (hprecedes.churn ef er)⟩

/-! ## What a snapshot counts -/

/-- Whether a call marks a failure. -/
def HealthCall.marksFailure : HealthCall → Bool
  | .markDegraded _ => true
  | .markHealthy | .degraded | .snapshot => false

/-- What holds of a health after the calls of a history. -/
structure LoggingHealth.CountsMarks (health : LoggingHealth) (hist : List HealthEntry) : Prop where
  failures : health.totalFailures = hist.countP fun e => e.method.marksFailure
  recoveries : health.totalRecoveries + (if health.degraded then 1 else 0) ≤ health.totalFailures
  kind : health.totalFailures = 0 ↔ health.lastFailureKind = none
  marked : ∀ kind, health.lastFailureKind = some kind → ∃ e ∈ hist, e.method = .markDegraded kind

theorem LoggingHealth.countsMarks_after (hist : List HealthEntry) :
    (LoggingHealth.init.after hist).CountsMarks hist := by
  induction hist using List.reverseRecOn with
  | nil => exact ⟨rfl, Nat.le_refl 0, ⟨fun _ => rfl, fun _ => rfl⟩, by rintro kind ⟨⟩⟩
  | append_singleton hist e ih =>
    have hmarked : ∀ kind, (LoggingHealth.init.after hist).lastFailureKind = some kind →
        ∃ d ∈ hist ++ [e], d.method = .markDegraded kind := by
      intro kind hkind
      obtain ⟨d, hd, hmethod⟩ := ih.marked kind hkind
      exact ⟨d, List.mem_append_left _ hd, hmethod⟩
    have hfailures := ih.failures
    have hrecoveries := ih.recoveries
    obtain ⟨call, method, res⟩ := e
    rw [LoggingHealth.after_append]
    generalize LoggingHealth.init.after hist = health at *
    show (method.apply health).CountsMarks _
    cases method with
    | markDegraded kind =>
      refine ⟨?_, ?_, ⟨by rintro ⟨⟩, by rintro ⟨⟩⟩, ?_⟩
      · rw [List.countP_append, ← hfailures]
        rfl
      · show health.totalRecoveries + 1 ≤ health.totalFailures + 1
        omega
      · rintro _ ⟨⟩
        exact ⟨_, List.mem_append_right _ (List.mem_singleton_self _), rfl⟩
    | markHealthy =>
      rw [HealthCall.apply, LoggingHealth.markHealthy]
      split
      · rename_i hd
        rw [hd] at hrecoveries
        refine ⟨?_, hrecoveries, ih.kind, hmarked⟩
        rw [List.countP_append, ← hfailures]
        rfl
      · refine ⟨?_, hrecoveries, ih.kind, hmarked⟩
        rw [List.countP_append, ← hfailures]
        rfl
    | degraded =>
      refine ⟨?_, hrecoveries, ih.kind, hmarked⟩
      rw [List.countP_append, ← hfailures]
      rfl
    | snapshot =>
      refine ⟨?_, hrecoveries, ih.kind, hmarked⟩
      rw [List.countP_append, ← hfailures]
      rfl

/-- **What a snapshot counts.** A snapshot that is begun after a moment `cfg` counts every
failure marked by a call that had ended then, and none twice. It has at most as many recoveries
as failures, and fewer while degraded, and its last kind is one that was marked. -/
theorem LoggingHealth.polls_count (h : healthSystem.Reachable ⟨none, .init⟩ cfg)
    (hr : ReflTransGen healthSystem.Step cfg cfg') (hi : cfg.calls.length ≤ i)
    {snap : HealthSnapshot} (he : cfg'.Ended i .snapshot (.ok (.snapshot snap))) :
    (cfg.calls.countP fun x => x.1.marksFailure && x.2.result?.isSome) ≤ snap.totalFailures ∧
    (snap.totalFailures ≤ cfg'.calls.countP fun x => x.1.marksFailure) ∧
    snap.totalRecoveries + (if snap.degraded then 1 else 0) ≤ snap.totalFailures ∧
    (snap.totalFailures = 0 ↔ snap.lastFailureKind = none) ∧
    ∀ kind, snap.lastFailureKind = some kind →
      ∃ (j : Nat) (p : Prog (lockSig healthSig) PyError HealthAnswer),
        cfg'.calls[j]? = some (.markDegraded kind, p) := by
  obtain ⟨hist, hlin⟩ := exists_linearizes h
  obtain ⟨more, hres, hnodup, hmade⟩ := exists_before hlin hr hi he
  cases hres
  have hcounts := LoggingHealth.countsMarks_after (hist ++ more)
  refine ⟨?_, ?_, hcounts.recoveries, hcounts.kind, fun kind hkind => ?_⟩
  · show _ ≤ (LoggingHealth.init.after (hist ++ more)).totalFailures
    rw [hcounts.failures, List.countP_append]
    refine Nat.le_trans (countP_le_of_mem fun j d p hj hq => ?_) (Nat.le_add_right _ _)
    obtain ⟨hd, hended⟩ := Bool.and_eq_true_iff.mp hq
    obtain ⟨res, hres⟩ := Option.isSome_iff_exists.mp hended
    exact ⟨res, hlin.ended ⟨p, hj, hres⟩, hd⟩
  · show (LoggingHealth.init.after (hist ++ more)).totalFailures ≤ _
    rw [hcounts.failures]
    exact countP_le_of_made hnodup hmade
  · obtain ⟨e, he, hmethod⟩ := hcounts.marked kind hkind
    obtain ⟨p, hp⟩ := hmade e he
    rw [hmethod] at hp
    exact ⟨_, p, hp⟩

/-! ## A failure and a recovery -/

theorem steps_call_health (c : HealthCall) (health : LoggingHealth)
    (cs : List (HealthCall × Prog (lockSig healthSig) PyError HealthAnswer)) :
    ReflTransGen healthSystem.Step ⟨⟨none, health⟩, cs⟩
      ⟨⟨none, c.apply health⟩, cs ++ [(c, .ended (.ok (c.answer health)))]⟩ := by
  have hruns := Prog.runs_answering healthStep c.body health
  rw [run_body] at hruns
  exact System.steps_call (Y := healthSystem) trivial (runs_guarded hruns)

/-- A failure is marked and a snapshot taken, and then a success is marked. -/
theorem exists_reachable_polled (kind : PyStr) : ∃ cfg cfg',
    healthSystem.Reachable ⟨none, .init⟩ cfg ∧ ReflTransGen healthSystem.Step cfg cfg' ∧
      cfg.calls.length = 2 ∧
      cfg.Ended 1 .snapshot (.ok (.snapshot ⟨true, 1, 0, some kind⟩)) ∧
      cfg'.Ended 3 .snapshot (.ok (.snapshot ⟨false, 1, 1, some kind⟩)) := by
  have h₀ := steps_call_health (.markDegraded kind) .init []
  have h₁ := h₀.trans (steps_call_health .snapshot _ _)
  exact ⟨_, _, h₁, (steps_call_health .markHealthy _ _).trans (steps_call_health .snapshot _ _),
    rfl, ⟨_, rfl, rfl⟩, ⟨_, rfl, rfl⟩⟩

theorem polls_atomic_polled : ∃ before : List HealthEntry,
    (LoggingHealth.init.after before).snapshot = ⟨false, 1, 1, some (lit "sink_write")⟩ ∧
      ⟨1, .snapshot, .ok (.snapshot ⟨true, 1, 0, some (lit "sink_write")⟩)⟩ ∈ before := by
  obtain ⟨cfg, cfg', h, hr, hlen, hfirst, hlast⟩ := exists_reachable_polled (lit "sink_write")
  obtain ⟨before, hres, -, -, hended⟩ := LoggingHealth.polls_atomic h hr (by omega) hlast
  exact ⟨before, (HealthAnswer.snapshot.inj (Except.ok.inj hres)).symm, hended _ _ _ hfirst⟩

theorem polls_monotone_polled : ∃ cfg cfg' snap snap',
    healthSystem.Reachable ⟨none, .init⟩ cfg ∧ ReflTransGen healthSystem.Step cfg cfg' ∧
      cfg.Ended 1 .snapshot (.ok (.snapshot snap)) ∧
      cfg'.Ended 3 .snapshot (.ok (.snapshot snap')) ∧
      snap.totalRecoveries ≤ snap'.totalRecoveries := by
  obtain ⟨cfg, cfg', h, hr, hlen, hfirst, hlast⟩ := exists_reachable_polled (lit "sink_write")
  exact ⟨cfg, cfg', _, _, h, hr, hfirst, hlast,
    (LoggingHealth.polls_monotone h hfirst hr (by omega) hlast).2.1⟩

theorem polls_count_polled : ∃ cfg', healthSystem.Reachable ⟨none, .init⟩ cfg' ∧
    1 ≤ cfg'.calls.countP fun x => x.1.marksFailure := by
  obtain ⟨cfg, cfg', h, hr, hlen, -, hlast⟩ := exists_reachable_polled (lit "sink_write")
  exact ⟨cfg', h.trans hr, (LoggingHealth.polls_count h hr (by omega) hlast).2.1⟩

end NmLogging
