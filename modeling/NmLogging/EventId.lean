import NmLogging.Operational

/-!
# Event ids

The grammar of event ids, character by character (`EventIdText`), and that the three places
which check it accept the same strings (`eventId_accepted`): a schema's id, a record's event,
and the reference to an event in the record of a defect.
-/

namespace NmLogging

/-! ## The grammar -/

/-- `a` to `z` and `0` to `9`. -/
def isAlnum (c : Nat) : Bool := isLower c || isDigit c

/-- One segment of an event id. -/
structure SegmentText (p : PyStr) : Prop where
  starts : ∃ c t, p = c :: t ∧ isLower c = true
  chars : ∀ c ∈ p, isAlnum c = true ∨ c = 0x5f
  ends : p.getLast? ≠ some 0x5f
  single : ¬[0x5f, 0x5f] <:+: p

/-- An event id: at least two segments with dots between them. -/
structure EventIdText (s : PyStr) : Prop where
  length_le : s.length ≤ 128
  two_le : 2 ≤ (s.splitOn 0x2e).length
  segments : ∀ p ∈ s.splitOn 0x2e, SegmentText p

/-! ## A segment -/

/-- What follows the first letter of a segment: after an underscore comes none. -/
inductive SegmentTail : PyStr → Prop where
  | nil : SegmentTail []
  | alnum {c : Nat} {t : PyStr} : isAlnum c = true → SegmentTail t → SegmentTail (c :: t)
  | under {c : Nat} {t : PyStr} : isAlnum c = true → SegmentTail t → SegmentTail (0x5f :: c :: t)

theorem isAlnum_ne_under {c : Nat} (h : isAlnum c = true) : c ≠ 0x5f := by
  rintro rfl
  exact absurd h (by decide)

theorem segmentTail_iff {t : PyStr} :
    SegmentTail t ↔ (∀ c ∈ t, isAlnum c = true ∨ c = 0x5f) ∧ t.getLast? ≠ some 0x5f ∧
      ¬[0x5f, 0x5f] <:+: t := by
  constructor
  · intro h
    induction h with
    | nil => exact ⟨List.forall_mem_nil _, by simp, by simp⟩
    | @alnum c t hc _ ih =>
      obtain ⟨hchars, hlast, hsingle⟩ := ih
      refine ⟨List.forall_mem_cons.mpr ⟨.inl hc, hchars⟩, ?_, ?_⟩
      · cases t with
        | nil => simpa using isAlnum_ne_under hc
        | cons d t => rwa [List.getLast?_cons_cons]
      · rw [List.infix_cons_iff]
        rintro (h | h)
        · exact isAlnum_ne_under hc (List.cons_prefix_cons.mp h).1.symm
        · exact hsingle h
    | @under c t hc _ ih =>
      obtain ⟨hchars, hlast, hsingle⟩ := ih
      refine ⟨List.forall_mem_cons.mpr ⟨.inr rfl, List.forall_mem_cons.mpr ⟨.inl hc, hchars⟩⟩, ?_, ?_⟩
      · cases t with
        | nil => simpa using isAlnum_ne_under hc
        | cons d t => rwa [List.getLast?_cons_cons, List.getLast?_cons_cons]
      · rw [List.infix_cons_iff, List.infix_cons_iff]
        rintro (h | h | h)
        · obtain ⟨-, h⟩ := List.cons_prefix_cons.mp h
          exact isAlnum_ne_under hc (List.cons_prefix_cons.mp h).1.symm
        · exact isAlnum_ne_under hc (List.cons_prefix_cons.mp h).1.symm
        · exact hsingle h
  · rintro ⟨hchars, hlast, hsingle⟩
    induction hn : t.length using Nat.strong_induction_on generalizing t with
    | _ n ih =>
      subst hn
      have rest : ∀ {u v : PyStr}, t = u ++ v → u ≠ [] → SegmentTail v := by
        rintro u v rfl hu
        have hlen : v.length < (u ++ v).length := by
          rw [List.length_append]
          have := List.length_pos_iff.mpr hu
          omega
        refine ih v.length hlen (fun c hc => hchars c (List.mem_append_right _ hc)) ?_ ?_ rfl
        · intro hv
          refine hlast ?_
          rw [List.getLast?_append, hv, Option.some_or]
        · exact fun h => hsingle (h.trans (List.suffix_append u v).isInfix)
      cases t with
      | nil => exact .nil
      | cons c t =>
        rcases hchars c List.mem_cons_self with hc | rfl
        · exact .alnum hc (rest (u := [c]) rfl (by simp))
        · cases t with
          | nil => simp at hlast
          | cons d t =>
            rcases hchars d (by simp) with hd | rfl
            · exact .under hd (rest (u := [0x5f, d]) rfl (by simp))
            · exact absurd (List.prefix_append [0x5f, 0x5f] t).isInfix hsingle

/-! ## The expression -/

/-- The words of a star, put together. -/
theorem flatten_mem_star {r : Regex} {u v : PyStr} (hu : u ∈ r.lang) (hv : v ∈ (Regex.star r).lang) :
    u ++ v ∈ (Regex.star r).lang := by
  obtain ⟨ws, rfl, hws⟩ := Language.mem_kstar.mp hv
  exact Language.mem_kstar.mpr ⟨u :: ws, rfl, List.forall_mem_cons.mpr ⟨hu, hws⟩⟩

theorem nil_mem_star (r : Regex) : [] ∈ (Regex.star r).lang := Language.nil_mem_kstar r.lang

def alnumRe : Regex := .cls fun c => isLower c || isDigit c

/-- `(?:_[a-z0-9]+)*` -/
def undersRe : Regex := .star (.seq (.chr 0x5f) (.plus alnumRe))

theorem segmentTail_append {u v : PyStr} (hu : u ∈ (Regex.star alnumRe).lang) (hv : SegmentTail v) :
    SegmentTail (u ++ v) := by
  obtain ⟨ws, rfl, hws⟩ := Language.mem_kstar.mp hu
  clear hu
  induction ws with
  | nil => exact hv
  | cons w ws ih =>
    obtain ⟨⟨c, hc, rfl⟩, hrest⟩ := List.forall_mem_cons.mp hws
    exact .alnum hc (ih hrest)

theorem mem_tail_iff {t : PyStr} :
    t ∈ (Regex.seq (.star alnumRe) undersRe).lang ↔ SegmentTail t := by
  constructor
  · rintro ⟨u, hu, v, hv, rfl⟩
    refine segmentTail_append hu ?_
    obtain ⟨ws, rfl, hws⟩ := Language.mem_kstar.mp hv
    clear hv
    induction ws with
    | nil => exact .nil
    | cons w ws ih =>
      obtain ⟨hw, hrest⟩ := List.forall_mem_cons.mp hws
      obtain ⟨_, ⟨d, hd, rfl⟩, _, ⟨_, ⟨c, hc, rfl⟩, x, hx, rfl⟩, rfl⟩ := hw
      have hd : d = 0x5f := by simpa using hd
      have htail : SegmentTail (0x5f :: c :: (x ++ ws.flatten)) :=
        .under hc (segmentTail_append hx (ih hrest))
      rw [List.flatten_cons, hd]
      simpa using htail
  · intro h
    induction h with
    | nil => exact ⟨[], nil_mem_star _, [], nil_mem_star _, rfl⟩
    | @alnum c t hc _ ih =>
      obtain ⟨u, hu, v, hv, rfl⟩ := ih
      exact ⟨[c] ++ u, flatten_mem_star ⟨c, hc, rfl⟩ hu, v, hv, rfl⟩
    | @under c t hc _ ih =>
      obtain ⟨u, hu, v, hv, rfl⟩ := ih
      have hword : [0x5f] ++ ([c] ++ u) ∈ (Regex.seq (.chr 0x5f) (.plus alnumRe)).lang :=
        ⟨[0x5f], ⟨0x5f, by decide, rfl⟩, [c] ++ u, ⟨[c], ⟨c, hc, rfl⟩, u, hu, rfl⟩, rfl⟩
      exact ⟨[], nil_mem_star _, _, flatten_mem_star hword hv, by simp⟩

/-- The expression of a segment is its grammar. -/
theorem mem_eventSegment {p : PyStr} : p ∈ eventSegment.lang ↔ SegmentText p := by
  constructor
  · rintro ⟨_, ⟨c, hc, rfl⟩, t, ht, rfl⟩
    obtain ⟨hchars, hlast, hsingle⟩ := segmentTail_iff.mp (mem_tail_iff.mp ht)
    have hc' : isAlnum c = true := by rw [isAlnum, hc, Bool.true_or]
    obtain ⟨hchars, hlast, hsingle⟩ :=
      segmentTail_iff.mp (.alnum hc' (segmentTail_iff.mpr ⟨hchars, hlast, hsingle⟩))
    exact ⟨⟨c, t, rfl, hc⟩, hchars, hlast, hsingle⟩
  · intro h
    obtain ⟨c, t, rfl, hc⟩ := h.starts
    have htail : SegmentTail t := by
      have hall := segmentTail_iff.mpr ⟨h.chars, h.ends, h.single⟩
      cases hall with
      | alnum _ ht => exact ht
      | under _ _ => exact absurd hc (by decide)
    exact ⟨[c], ⟨c, hc, rfl⟩, t, mem_tail_iff.mpr htail, rfl⟩

theorem intercalate_cons (x : Nat) (p : PyStr) (ps : List PyStr) :
    [x].intercalate (p :: ps) = p ++ (ps.map fun q => x :: q).flatten := by
  induction ps generalizing p with
  | nil => simp
  | cons q ps ih =>
    rw [List.intercalate_cons_of_ne_nil (by simp), ih]
    simp

/-- The expression of an event id: segments with dots between them. -/
theorem mem_eventIdRe {s : PyStr} :
    s ∈ eventIdRe.lang ↔ ∃ p q ps, (∀ r ∈ p :: q :: ps, SegmentText r) ∧
      s = [0x2e].intercalate (p :: q :: ps) := by
  have dotted : ∀ {w : PyStr}, w ∈ (Regex.seq (.chr 0x2e) eventSegment).lang ↔
      ∃ p, SegmentText p ∧ w = 0x2e :: p := by
    intro w
    constructor
    · rintro ⟨_, ⟨d, hd, rfl⟩, p, hp, rfl⟩
      have hd : d = 0x2e := by simpa using hd
      exact ⟨p, mem_eventSegment.mp hp, by rw [hd]; rfl⟩
    · rintro ⟨p, hp, rfl⟩
      exact ⟨[0x2e], ⟨0x2e, by decide, rfl⟩, p, mem_eventSegment.mpr hp, rfl⟩
  constructor
  · rintro ⟨p, hp, _, ⟨w, hw, v, hv, rfl⟩, rfl⟩
    obtain ⟨q, hq, rfl⟩ := dotted.mp hw
    obtain ⟨ws, rfl, hws⟩ := Language.mem_kstar.mp hv
    have hps : ∃ ps : List PyStr, (∀ r ∈ ps, SegmentText r) ∧ ws = ps.map fun r => 0x2e :: r := by
      clear hv
      induction ws with
      | nil => exact ⟨[], List.forall_mem_nil _, rfl⟩
      | cons w ws ih =>
        obtain ⟨hw, hrest⟩ := List.forall_mem_cons.mp hws
        obtain ⟨r, hr, rfl⟩ := dotted.mp hw
        obtain ⟨ps, hps, rfl⟩ := ih hrest
        exact ⟨r :: ps, List.forall_mem_cons.mpr ⟨hr, hps⟩, rfl⟩
    obtain ⟨ps, hps, rfl⟩ := hps
    refine ⟨p, q, ps, List.forall_mem_cons.mpr ⟨mem_eventSegment.mp hp,
      List.forall_mem_cons.mpr ⟨hq, hps⟩⟩, ?_⟩
    rw [intercalate_cons, List.map_cons, List.flatten_cons]
  · rintro ⟨p, q, ps, hall, rfl⟩
    obtain ⟨hp, hall⟩ := List.forall_mem_cons.mp hall
    obtain ⟨hq, hps⟩ := List.forall_mem_cons.mp hall
    refine ⟨p, mem_eventSegment.mpr hp, _, ⟨_, dotted.mpr ⟨q, hq, rfl⟩, _,
      Language.mem_kstar.mpr ⟨ps.map fun r => 0x2e :: r, rfl, ?_⟩, rfl⟩, ?_⟩
    · intro w hw
      obtain ⟨r, hr, rfl⟩ := List.mem_map.mp hw
      exact dotted.mpr ⟨r, hps r hr, rfl⟩
    · rw [intercalate_cons, List.map_cons, List.flatten_cons]

theorem dot_notMem_segment {p : PyStr} (h : SegmentText p) : 0x2e ∉ p := by
  intro hm
  rcases h.chars _ hm with hc | hc
  · exact absurd hc (by decide)
  · exact absurd hc (by decide)

/-- The check of an event id decides its grammar. -/
theorem eventId_iff (s : PyStr) :
    (s.length ≤ MAX_EVENT_ID_CHARS ∧ eventIdRe.fullmatch s = true) ↔ EventIdText s := by
  rw [Regex.fullmatch_iff, mem_eventIdRe]
  constructor
  · rintro ⟨hlen, p, q, ps, hall, rfl⟩
    have hsplit : ([0x2e].intercalate (p :: q :: ps)).splitOn 0x2e = p :: q :: ps :=
      List.splitOn_intercalate 0x2e (fun r hr => dot_notMem_segment (hall r hr)) (by simp)
    exact ⟨hlen, by rw [hsplit]; simp, by rw [hsplit]; exact hall⟩
  · intro h
    refine ⟨h.length_le, ?_⟩
    have hlen := h.two_le
    have hall := h.segments
    have hjoin : [0x2e].intercalate (s.splitOn 0x2e) = s := List.intercalate_splitOn 0x2e
    generalize s.splitOn 0x2e = ls at hlen hall hjoin
    match ls, hlen with
    | p :: q :: ps, _ => exact ⟨p, q, ps, hall, hjoin.symm⟩

/-! ## The three checks -/

/-- A schema accepts a string for its id, a record for its event, and the record of a defect
refers to it, all three or none: if it is an event id. -/
theorem eventId_accepted (s : PyStr) :
    (∀ schema : EventSchema,
      { schema.toEventSchemaArgs with eventId := .str s }.postInit = .ok () ↔ EventIdText s) ∧
    (∀ r : Record, { r.envelope with event := .str s }.postInit = .ok () ↔ EventIdText s) ∧
    (∀ r : OperationalRecord,
      { r.toOperationalArgs with event := .str s }.postInit = .ok () ↔ EventIdText s) ∧
    (∀ r : AuditRecord, { r.toAuditArgs with event := .str s }.postInit = .ok () ↔ EventIdText s) ∧
    (isSafeEventRef (.str s) = true ↔ EventIdText s) := by
  have hevent : validateEvent (.str s) = .ok () ↔ EventIdText s := by
    rw [validateEvent, require_eq_ok, Bool.and_eq_true, decide_eq_true_eq, eventId_iff]
  have hrecord : ∀ {r : Envelope}, r.Valid →
      ({ r with event := .str s }.postInit = .ok () ↔ EventIdText s) := by
    intro r hr
    rw [← hevent, validateEvent_ok, Envelope.postInit_ok]
    exact ⟨fun h => h.event, fun h => { hr with event := h }⟩
  refine ⟨fun schema => ?_, fun r => hrecord r.valid, fun r => hrecord (Record.operational r).valid,
    fun r => ?_, ?_⟩
  · obtain ⟨-, hrest⟩ := check_eq_ok.mp schema.ok
    rw [EventSchemaArgs.postInit, check_eq_ok, ← eventId_iff]
    constructor
    · rintro ⟨h, -⟩
      simpa only [EventSchemaArgs.validateEventId, check_eq_ok, require_eq_ok,
        decide_eq_true_eq] using h
    · intro h
      refine ⟨?_, hrest⟩
      simpa only [EventSchemaArgs.validateEventId, check_eq_ok, require_eq_ok,
        decide_eq_true_eq] using h
  · have hr := AuditArgs.postInit_ok.mp r.ok
    rw [← hrecord hr.envelope, Envelope.postInit_ok, AuditArgs.postInit_ok]
    exact ⟨fun h => h.envelope, fun h => { hr with envelope := h }⟩
  · rw [isSafeEventRef, Bool.and_eq_true, decide_eq_true_eq, eventId_iff]

end NmLogging
