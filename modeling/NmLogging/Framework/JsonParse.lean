import NmLogging.Framework.JsonGrammar

/-!
# The scanner reads the grammar

`loads` accepts the texts of the dialect of its decoder, within its depth, with the
values they stand for (`loads_ok_iff`). It is nested too deeply where a text opens more
arrays and objects than the depth allows, whatever comes after that (`loads_recursion_iff`);
every other text is no JSON.
-/

namespace NmLogging.Json

variable {F : Type} {D : Decoder F}

/-! ## White space -/

theorem ws_nil : Ws [] := List.forall_mem_nil _

theorem Ws.append {a b : PyStr} (ha : Ws a) (hb : Ws b) : Ws (a ++ b) := by
  intro c hc
  rcases List.mem_append.mp hc with h | h
  · exact ha c h
  · exact hb c h

theorem skipWs_ws {a : PyStr} (ha : Ws a) (s : PyStr) : skipWs (a ++ s) = skipWs s :=
  List.dropWhile_append_of_pos ha

theorem skipWs_ws_cons {b : PyStr} {c : Nat} (hb : Ws b) (hc : isWs c = false) (t : PyStr) :
    skipWs (b ++ c :: t) = c :: t := by
  rw [skipWs_ws hb, skipWs_of_head hc]

theorem exists_ws (s : PyStr) : ∃ b, Ws b ∧ s = b ++ skipWs s :=
  ⟨s.takeWhile isWs, fun _ hc => List.mem_takeWhile_imp hc, List.takeWhile_append_dropWhile.symm⟩

theorem exists_ws_of_skipWs {s t : PyStr} (h : skipWs s = t) : ∃ b, Ws b ∧ s = b ++ t :=
  h ▸ exists_ws s

/-- White space and what closes or separates do not continue a number. -/
theorem stop_ws {b r : PyStr} (hb : Ws b) (hr : Stop r) : Stop (b ++ r) := by
  intro c t h
  cases b with
  | nil => exact hr c t h
  | cons d b =>
    cases h
    have := hb c List.mem_cons_self
    simp only [isWs, Bool.or_eq_true, beq_iff_eq] at this
    rcases this with ((rfl | rfl) | rfl) | rfl <;> decide

/-! ## Words and numbers -/

theorem scalar_word {w : PyStr} {v : Value F} (h : (w, v) ∈ D.words) (r : PyStr) :
    D.scalar (w ++ r) = .ok (v, r) := by
  simp only [Decoder.words, List.mem_cons, Prod.mk.injEq, List.not_mem_nil, or_false] at h
  rcases h with ⟨rfl, rfl⟩ | ⟨rfl, rfl⟩ | ⟨rfl, rfl⟩ | ⟨rfl, rfl⟩ | ⟨rfl, rfl⟩ | ⟨rfl, rfl⟩ <;>
    simp [Decoder.scalar, Decoder.words, startsWith, lit]

theorem scalar_ok {s r : PyStr} {v : Value F} (h : D.scalar s = .ok (v, r)) (d : Nat) :
    ∃ p, s = p ++ r ∧ Derives D.dialect d p (.value v) := by
  unfold Decoder.scalar at h
  split at h
  · rename_i w u hf
    cases h
    have hs := List.find?_some hf
    obtain ⟨t, ht⟩ := List.isPrefixOf_iff_prefix.mp hs
    refine ⟨w, ?_, .word (List.mem_of_find?_eq_some hf)⟩
    rw [← ht, List.drop_left]
  · split at h
    · cases h
    · rename_i n r' hn
      cases hv : D.number n with
      | error e => rw [hv] at h; cases h
      | ok u =>
        rw [hv] at h
        cases h
        obtain ⟨hc, rfl⟩ := Decoder.number_ok.mp hv
        refine ⟨n.text, ?_, .number (isNumber_of_matchNumber hn) hc⟩
        rw [matchNumber_eq hn, Number.text]
        simp only [List.append_assoc]

theorem scalar_error {s : PyStr} {e : LoadsError} (h : D.scalar s = .error e) : e = .value := by
  unfold Decoder.scalar at h
  split at h
  · cases h
  · split at h
    · cases h; rfl
    · rename_i n r' hn
      simp only [Decoder.number] at h
      split at h
      · cases h
      · split at h
        · cases h; rfl
        · cases h

/-- What a value starts with. -/
theorem Derives.head {d : Nat} {s : PyStr} {v : Value F} (h : Derives D.dialect d s (.value v)) :
    ∃ c t, s = c :: t ∧ isWs c = false ∧ c ≠ 0x5d ∧ c ≠ 0x7d ∧ c ≠ 0xfeff := by
  cases h with
  | word h =>
    simp only [Decoder.dialect, Decoder.words, List.mem_cons, Prod.mk.injEq, List.not_mem_nil,
      or_false] at h
    rcases h with ⟨rfl, -⟩ | ⟨rfl, -⟩ | ⟨rfl, -⟩ | ⟨rfl, -⟩ | ⟨rfl, -⟩ | ⟨rfl, -⟩ <;>
      exact ⟨_, _, rfl, by decide⟩
  | number hn _ =>
    obtain ⟨c, t, hc, h | h⟩ := matchNumber_head (matchNumber_of_isNumber hn)
    · have hd := isDigit_iff.mp hc
      refine ⟨c, t, h, ?_, by omega, by omega, by omega⟩
      simp only [isWs, Bool.or_eq_false_iff, beq_eq_false_iff_ne]
      omega
    · exact ⟨0x2d, _, h, by decide⟩
  | string => exact ⟨0x22, _, rfl, by decide⟩
  | noItems => exact ⟨0x5b, _, rfl, by decide⟩
  | array => exact ⟨0x5b, _, rfl, by decide⟩
  | noMembers => exact ⟨0x7b, _, rfl, by decide⟩
  | object => exact ⟨0x7b, _, rfl, by decide⟩

theorem Derives.skipWs {d : Nat} {a s : PyStr} {v : Value F} (ha : Ws a)
    (h : Derives D.dialect d s (.value v)) (r : PyStr) : skipWs (a ++ (s ++ r)) = s ++ r := by
  obtain ⟨c, t, rfl, hc, -⟩ := h.head
  rw [skipWs_ws ha, List.cons_append, skipWs_of_head hc]

/-! ## What is accepted is derived -/

theorem Derives.ws_items {G : Dialect F} {d : Nat} {a s : PyStr} {vs : List (Value F)} (ha : Ws a)
    (h : Derives G d s (.items vs)) : Derives G d (a ++ s) (.items vs) := by
  cases h with
  | lastItem ha' hv hb =>
    rw [← List.append_assoc]
    exact .lastItem (ha.append ha') hv hb
  | item ha' hv hb ht =>
    rw [← List.append_assoc]
    exact .item (ha.append ha') hv hb ht

theorem Derives.ws_members {G : Dialect F} {d : Nat} {a s : PyStr} {kvs : List (PyStr × Value F)}
    (ha : Ws a) (h : Derives G d s (.members kvs)) : Derives G d (a ++ s) (.members kvs) := by
  cases h with
  | lastMember ha' hk hb hc hv he =>
    rw [← List.append_assoc]
    exact .lastMember (ha.append ha') hk hb hc hv he
  | member ha' hk hb hc hv he ht =>
    rw [← List.append_assoc]
    exact .member (ha.append ha') hk hb hc hv he ht

theorem scan_derives (D : Decoder F) (fuel : Nat) :
    (∀ {depth s v r}, scanOnce D fuel depth s = .ok (v, r) →
      ∃ p, s = p ++ r ∧ Derives D.dialect depth p (.value v)) ∧
    (∀ {depth acc s v r}, scanMembers D fuel depth acc s = .ok (v, r) →
      ∃ p kvs, s = p ++ 0x7d :: r ∧ Derives D.dialect depth p (.members kvs) ∧
        v = .obj (assignAll acc kvs)) ∧
    (∀ {depth acc s v r}, scanItems D fuel depth acc s = .ok (v, r) →
      ∃ p vs, s = p ++ 0x5d :: r ∧ Derives D.dialect depth p (.items vs) ∧ v = .arr (acc ++ vs)) := by
  induction fuel with
  | zero =>
    refine ⟨?_, ?_, ?_⟩
    · intro _ _ _ _ h; cases h
    · intro _ _ _ _ _ h; cases h
    · intro _ _ _ _ _ h; cases h
  | succ fuel ih =>
    obtain ⟨ih₁, ih₂, ih₃⟩ := ih
    refine ⟨?_, ?_, ?_⟩
    · intro depth s v r h
      cases s with
      | nil => cases h
      | cons c t =>
        rw [scanOnce_ok] at h
        rcases h with ⟨rfl, w, hs, rfl⟩ | ⟨rfl, d, rfl, ⟨hs, rfl⟩ | ⟨-, hs⟩⟩ |
          ⟨rfl, d, rfl, ⟨hs, rfl⟩ | ⟨-, hs⟩⟩ | ⟨-, -, -, hs⟩
        · obtain ⟨p, rfl, hp⟩ := chars_of_scanString hs
          exact ⟨quoted p, by simp [quoted], .string hp⟩
        · obtain ⟨a, ha, rfl⟩ := exists_ws_of_skipWs hs
          exact ⟨0x7b :: (a ++ [0x7d]), by simp, .noMembers ha⟩
        · obtain ⟨p, kvs, hp, hd, rfl⟩ := ih₂ hs
          obtain ⟨a, ha, rfl⟩ := exists_ws_of_skipWs hp
          exact ⟨0x7b :: ((a ++ p) ++ [0x7d]), by simp, .object (hd.ws_members ha)⟩
        · obtain ⟨a, ha, rfl⟩ := exists_ws_of_skipWs hs
          exact ⟨0x5b :: (a ++ [0x5d]), by simp, .noItems ha⟩
        · obtain ⟨p, vs, hp, hd, rfl⟩ := ih₃ hs
          obtain ⟨a, ha, rfl⟩ := exists_ws_of_skipWs hp
          exact ⟨0x5b :: ((a ++ p) ++ [0x5d]), by simp, .array (hd.ws_items ha)⟩
        · exact scalar_ok hs depth
    · intro depth acc s v r h
      rw [scanMembers_ok] at h
      obtain ⟨t, k, r₁, r₂, w, r₃, rfl, hk, hr, hw, h⟩ := h
      obtain ⟨q, rfl, hq⟩ := chars_of_scanString hk
      obtain ⟨b, hb, rfl⟩ := exists_ws_of_skipWs hr
      obtain ⟨s, hs, hd⟩ := ih₁ hw
      obtain ⟨c, hc, rfl⟩ := exists_ws_of_skipWs hs
      rcases h with ⟨hclose, rfl⟩ | ⟨r₄, hcomma, h⟩
      · obtain ⟨e, he, rfl⟩ := exists_ws_of_skipWs hclose
        refine ⟨_, _, ?_, .lastMember ws_nil hq hb hc hd he, rfl⟩
        simp [quoted]
      · obtain ⟨e, he, rfl⟩ := exists_ws_of_skipWs hcomma
        obtain ⟨p, kvs, hp, ht, rfl⟩ := ih₂ h
        obtain ⟨a, ha, rfl⟩ := exists_ws_of_skipWs hp
        refine ⟨_, _, ?_, .member ws_nil hq hb hc hd he (ht.ws_members ha), rfl⟩
        simp [quoted]
    · intro depth acc s v r h
      rw [scanItems_ok] at h
      obtain ⟨w, r₃, hw, h⟩ := h
      obtain ⟨s, rfl, hd⟩ := ih₁ hw
      rcases h with ⟨hclose, rfl⟩ | ⟨r₄, hcomma, h⟩
      · obtain ⟨b, hb, rfl⟩ := exists_ws_of_skipWs hclose
        refine ⟨_, _, ?_, .lastItem ws_nil hd hb, rfl⟩
        simp
      · obtain ⟨b, hb, rfl⟩ := exists_ws_of_skipWs hcomma
        obtain ⟨p, vs, hp, ht, rfl⟩ := ih₃ h
        obtain ⟨a, ha, rfl⟩ := exists_ws_of_skipWs hp
        refine ⟨_, _, ?_, .item ws_nil hd hb (ht.ws_items ha), ?_⟩
        · simp
        · simp

/-! ## What is derived is accepted -/

/-- That the scanners read a phrase. -/
def Reads (D : Decoder F) (d : Nat) (s : PyStr) : Phrase F → Prop
  | .value v => ∀ {fuel r}, 2 * s.length ≤ fuel → Stop r → scanOnce D fuel d (s ++ r) = .ok (v, r)
  | .items vs => ∀ {fuel acc r}, 2 * s.length + 1 ≤ fuel →
    NotHead 0x5d (skipWs (s ++ 0x5d :: r)) ∧
      scanItems D fuel d acc (skipWs (s ++ 0x5d :: r)) = .ok (.arr (acc ++ vs), r)
  | .members kvs => ∀ {fuel acc r}, 2 * s.length + 1 ≤ fuel →
    NotHead 0x7d (skipWs (s ++ 0x7d :: r)) ∧
      scanMembers D fuel d acc (skipWs (s ++ 0x7d :: r)) = .ok (.obj (assignAll acc kvs), r)

theorem Derives.notHead {d c : Nat} {s r : PyStr} {v : Value F} (hc : c = 0x5d ∨ c = 0x7d)
    (h : Derives D.dialect d s (.value v)) : NotHead c (s ++ r) := by
  obtain ⟨x, t, rfl, -, h₁, h₂, -⟩ := h.head
  intro u hu
  cases hu
  rcases hc with rfl | rfl
  · exact h₁ rfl
  · exact h₂ rfl

/-- A member up to its value, scanned. -/
theorem skipWs_key {k a b c r : PyStr} (ha : Ws a) :
    skipWs (a ++ (quoted k ++ (b ++ 0x3a :: (c ++ r)))) =
      0x22 :: (k ++ 0x22 :: (b ++ 0x3a :: (c ++ r))) := by
  simp only [skipWs_ws ha, quoted, List.cons_append, List.append_assoc, List.nil_append]
  exact skipWs_of_head (by decide)

theorem scanOnce_word {fuel d : Nat} {w : PyStr} {v : Value F} (h : (w, v) ∈ D.words) (r : PyStr) :
    scanOnce D (fuel + 1) d (w ++ r) = .ok (v, r) := by
  have hs := scalar_word h r
  simp only [Decoder.words, List.mem_cons, Prod.mk.injEq, List.not_mem_nil, or_false] at h
  rcases h with ⟨rfl, rfl⟩ | ⟨rfl, rfl⟩ | ⟨rfl, rfl⟩ | ⟨rfl, rfl⟩ | ⟨rfl, rfl⟩ | ⟨rfl, rfl⟩ <;>
    exact (scanOnce_scalar (by decide) (by decide) (by decide)).trans hs

theorem Derives.exists_fuel {d fuel : Nat} {s : PyStr} {v : Value F}
    (h : Derives D.dialect d s (.value v)) (hf : 2 * s.length ≤ fuel) : ∃ n, fuel = n + 1 := by
  obtain ⟨c, t, rfl, -⟩ := h.head
  rw [List.length_cons] at hf
  exact ⟨fuel - 1, by omega⟩

theorem reads_noItems {d : Nat} {a : PyStr} (ha : Ws a) :
    Reads D (d + 1) (0x5b :: (a ++ [0x5d])) (.value (.arr [])) := by
  intro fuel r hf _
  have hd : Derives D.dialect (d + 1) (0x5b :: (a ++ [0x5d])) (.value (.arr [])) := .noItems ha
  obtain ⟨n, rfl⟩ := hd.exists_fuel hf
  rw [List.cons_append, scanOnce_ok]
  refine .inr (.inr (.inl ⟨rfl, d, rfl, .inl ⟨?_, rfl⟩⟩))
  rw [List.append_assoc]
  exact skipWs_ws_cons ha rfl r

theorem reads_noMembers {d : Nat} {a : PyStr} (ha : Ws a) :
    Reads D (d + 1) (0x7b :: (a ++ [0x7d])) (.value (.obj [])) := by
  intro fuel r hf _
  have hd : Derives D.dialect (d + 1) (0x7b :: (a ++ [0x7d])) (.value (.obj [])) := .noMembers ha
  obtain ⟨n, rfl⟩ := hd.exists_fuel hf
  rw [List.cons_append, scanOnce_ok]
  refine .inr (.inl ⟨rfl, d, rfl, .inl ⟨?_, rfl⟩⟩)
  rw [List.append_assoc]
  exact skipWs_ws_cons ha rfl r

theorem reads_array {d : Nat} {s : PyStr} {vs : List (Value F)} (h : Reads D d s (.items vs)) :
    Reads D (d + 1) (0x5b :: (s ++ [0x5d])) (.value (.arr vs)) := by
  intro fuel r hf _
  simp only [List.length_cons, List.length_append, List.length_nil] at hf
  obtain ⟨n, rfl⟩ : ∃ n, fuel = n + 1 := ⟨fuel - 1, by omega⟩
  rw [List.cons_append, List.append_assoc, scanOnce_ok]
  obtain ⟨hhead, hitems⟩ := @h n [] r (by omega)
  exact .inr (.inr (.inl ⟨rfl, d, rfl, .inr ⟨hhead, hitems⟩⟩))

theorem reads_object {d : Nat} {s : PyStr} {kvs : List (PyStr × Value F)}
    (h : Reads D d s (.members kvs)) :
    Reads D (d + 1) (0x7b :: (s ++ [0x7d])) (.value (.obj (assignAll [] kvs))) := by
  intro fuel r hf _
  simp only [List.length_cons, List.length_append, List.length_nil] at hf
  obtain ⟨n, rfl⟩ : ∃ n, fuel = n + 1 := ⟨fuel - 1, by omega⟩
  rw [List.cons_append, List.append_assoc, scanOnce_ok]
  obtain ⟨hhead, hmembers⟩ := @h n [] r (by omega)
  exact .inr (.inl ⟨rfl, d, rfl, .inr ⟨hhead, hmembers⟩⟩)

theorem reads_lastItem {d : Nat} {a s b : PyStr} {v : Value F} (ha : Ws a)
    (hv : Derives D.dialect d s (.value v)) (hb : Ws b) (h : Reads D d s (.value v)) :
    Reads D d (a ++ (s ++ b)) (.items [v]) := by
  intro fuel acc r hf
  simp only [List.length_append] at hf
  obtain ⟨n, rfl⟩ : ∃ n, fuel = n + 1 := ⟨fuel - 1, by omega⟩
  simp only [List.append_assoc]
  rw [hv.skipWs ha, scanItems_ok]
  exact ⟨hv.notHead (.inl rfl), v, _, h (by omega) (stop_ws hb (stop_cons (.inr (.inl rfl)))),
    .inl ⟨skipWs_ws_cons hb rfl r, rfl⟩⟩

theorem reads_item {d : Nat} {a s b t : PyStr} {v : Value F} {vs : List (Value F)} (ha : Ws a)
    (hv : Derives D.dialect d s (.value v)) (hb : Ws b) (h : Reads D d s (.value v))
    (ht : Reads D d t (.items vs)) :
    Reads D d (a ++ (s ++ (b ++ 0x2c :: t))) (.items (v :: vs)) := by
  intro fuel acc r hf
  simp only [List.length_append, List.length_cons] at hf
  obtain ⟨n, rfl⟩ : ∃ n, fuel = n + 1 := ⟨fuel - 1, by omega⟩
  simp only [List.append_assoc, List.cons_append]
  rw [hv.skipWs ha, scanItems_ok]
  obtain ⟨-, hitems⟩ := @ht n (acc ++ [v]) r (by omega)
  refine ⟨hv.notHead (.inl rfl), v, _, h (by omega) (stop_ws hb (stop_cons (.inl rfl))),
    .inr ⟨_, skipWs_ws_cons hb rfl _, ?_⟩⟩
  rw [hitems, List.append_assoc, List.singleton_append]

theorem reads_lastMember {d : Nat} {a k x b c s e : PyStr} {v : Value F} (ha : Ws a)
    (hk : Chars k x) (hb : Ws b) (hc : Ws c) (hv : Derives D.dialect d s (.value v)) (he : Ws e)
    (h : Reads D d s (.value v)) :
    Reads D d (a ++ (quoted k ++ (b ++ 0x3a :: (c ++ (s ++ e))))) (.members [(x, v)]) := by
  intro fuel acc r hf
  simp only [List.length_append, List.length_cons] at hf
  obtain ⟨n, rfl⟩ : ∃ n, fuel = n + 1 := ⟨fuel - 1, by omega⟩
  simp only [List.append_assoc, List.cons_append]
  rw [skipWs_key ha, scanMembers_ok]
  refine ⟨fun u hu => (by cases hu), _, x, _, _, v, _, rfl, scanString_of_chars hk _,
    skipWs_ws_cons hb rfl _, ?_, .inl ⟨skipWs_ws_cons he rfl r, rfl⟩⟩
  rw [hv.skipWs hc]
  exact h (by omega) (stop_ws he (stop_cons (.inr (.inr rfl))))

theorem reads_member {d : Nat} {a k x b c s e t : PyStr} {v : Value F}
    {kvs : List (PyStr × Value F)} (ha : Ws a) (hk : Chars k x) (hb : Ws b) (hc : Ws c)
    (hv : Derives D.dialect d s (.value v)) (he : Ws e) (h : Reads D d s (.value v))
    (ht : Reads D d t (.members kvs)) :
    Reads D d (a ++ (quoted k ++ (b ++ 0x3a :: (c ++ (s ++ (e ++ 0x2c :: t))))))
      (.members ((x, v) :: kvs)) := by
  intro fuel acc r hf
  simp only [List.length_append, List.length_cons] at hf
  obtain ⟨n, rfl⟩ : ∃ n, fuel = n + 1 := ⟨fuel - 1, by omega⟩
  simp only [List.append_assoc, List.cons_append]
  rw [skipWs_key ha, scanMembers_ok]
  obtain ⟨-, hmembers⟩ := @ht n (assocSet acc x v) r (by omega)
  refine ⟨fun u hu => (by cases hu), _, x, _, _, v, _, rfl, scanString_of_chars hk _,
    skipWs_ws_cons hb rfl _, ?_, .inr ⟨_, skipWs_ws_cons he rfl _, hmembers⟩⟩
  rw [hv.skipWs hc]
  exact h (by omega) (stop_ws he (stop_cons (.inl rfl)))

/-- The scanners read what is derived. -/
theorem Derives.reads {d : Nat} {s : PyStr} {ph : Phrase F} (h : Derives D.dialect d s ph) :
    Reads D d s ph := by
  induction h with
  | @word d w v h =>
    intro fuel r hf _
    have hd : Derives D.dialect d w (.value v) := .word h
    obtain ⟨n, rfl⟩ := hd.exists_fuel hf
    exact scanOnce_word h r
  | @number d n hn hc =>
    intro fuel r hf hr
    have hd : Derives D.dialect d n.text (.value (n.value D.float)) := .number hn hc
    obtain ⟨m, rfl⟩ := hd.exists_fuel hf
    rw [scanOnce_number (matchNumber_of_isNumber hn) hr, Decoder.number_ok.mpr ⟨hc, rfl⟩]
    rfl
  | @string d s v h =>
    intro fuel r hf _
    have hd : Derives D.dialect d (quoted s) (.value (.str v)) := .string h
    obtain ⟨n, rfl⟩ := hd.exists_fuel hf
    rw [quoted, List.cons_append, List.append_assoc, scanOnce_ok]
    exact .inl ⟨rfl, v, scanString_of_chars h r, rfl⟩
  | noItems ha => exact reads_noItems ha
  | array _ ih => exact reads_array ih
  | noMembers ha => exact reads_noMembers ha
  | object _ ih => exact reads_object ih
  | lastItem ha hv hb ih => exact reads_lastItem ha hv hb ih
  | item ha hv hb _ ih ih' => exact reads_item ha hv hb ih ih'
  | lastMember ha hk hb hc hv he ih => exact reads_lastMember ha hk hb hc hv he ih
  | member ha hk hb hc hv he _ ih ih' => exact reads_member ha hk hb hc hv he ih ih'

theorem startsWith_of_ne {c x : Nat} (h : c ≠ x) (s : PyStr) : startsWith (c :: s) [x] = false := by
  have : (x == c) = false := beq_eq_false_iff_ne.mpr h.symm
  simp only [startsWith, List.isPrefixOf, this, Bool.false_and]

/-- **What `loads` accepts**: the texts of the dialect of its decoder, as what they
stand for. -/
theorem loads_ok_iff {d : Nat} {t : PyStr} {v : Value F} :
    loads D d t = .ok v ↔ IsText D.dialect d t v := by
  constructor
  · intro h
    unfold loads at h
    split at h
    · cases h
    split at h
    · cases h
    rename_i v' r hs
    split at h
    · rename_i hr
      cases h
      obtain ⟨p, hp, hd⟩ := (scan_derives D _).1 hs
      obtain ⟨a, ha, rfl⟩ := exists_ws_of_skipWs hp
      obtain ⟨b, hb, rfl⟩ := exists_ws_of_skipWs hr
      rw [List.append_nil]
      exact ⟨a, p, b, ha, hd, hb, rfl⟩
    · cases h
  · rintro ⟨a, s, b, ha, hd, hb, rfl⟩
    have hbom : startsWith (a ++ (s ++ b)) [0xfeff] = false := by
      obtain ⟨c, u, rfl, -, -, -, hc⟩ := hd.head
      cases a with
      | nil => exact startsWith_of_ne hc _
      | cons c a =>
        have : c ≠ 0xfeff := by
          rintro rfl
          exact absurd (ha _ List.mem_cons_self) (by decide)
        exact startsWith_of_ne this _
    have hend : skipWs b = [] := List.dropWhile_eq_nil_iff.mpr hb
    have hscan : scanOnce D (2 * (a ++ (s ++ b)).length + 1) d (s ++ b) = .ok (v, b) := by
      refine hd.reads ?_ ?_
      · simp only [List.length_append]; omega
      · simpa using stop_ws hb stop_nil
    unfold loads
    rw [hbom, hd.skipWs ha, hscan]
    simp [hend]

/-! ## One text, one value -/

/-- A phrase of a dialect whose words and floats a decoder has, in a decoder that converts
integers of its length. -/
theorem Derives.widen {G : Dialect F} (hw : ∀ e ∈ G.words, e ∈ D.words) (hf : G.float = D.float)
    {d d' : Nat} {s : PyStr} {ph : Phrase F} (h : Derives G d s ph) (hd : d ≤ d')
    (hs : s.length ≤ D.maxDigits) : Derives D.dialect d' s ph := by
  induction h generalizing d' with
  | word h => exact .word (hw _ h)
  | @number d n hn _ =>
    rw [hf]
    refine .number hn (.inr ?_)
    simp only [Number.text, List.length_append] at hs
    omega
  | string h => exact .string h
  | noItems ha =>
    obtain ⟨m, rfl⟩ : ∃ m, d' = m + 1 := ⟨d' - 1, by omega⟩
    exact .noItems ha
  | array _ ih =>
    obtain ⟨m, rfl⟩ : ∃ m, d' = m + 1 := ⟨d' - 1, by omega⟩
    simp only [List.length_cons, List.length_append] at hs
    exact .array (ih (by omega) (by omega))
  | noMembers ha =>
    obtain ⟨m, rfl⟩ : ∃ m, d' = m + 1 := ⟨d' - 1, by omega⟩
    exact .noMembers ha
  | object _ ih =>
    obtain ⟨m, rfl⟩ : ∃ m, d' = m + 1 := ⟨d' - 1, by omega⟩
    simp only [List.length_cons, List.length_append] at hs
    exact .object (ih (by omega) (by omega))
  | lastItem ha _ hb ih =>
    simp only [List.length_append] at hs
    exact .lastItem ha (ih hd (by omega)) hb
  | item ha _ hb _ ih ih' =>
    simp only [List.length_cons, List.length_append] at hs
    exact .item ha (ih hd (by omega)) hb (ih' hd (by omega))
  | lastMember ha hk hb hc _ he ih =>
    simp only [List.length_cons, List.length_append] at hs
    exact .lastMember ha hk hb hc (ih hd (by omega)) he
  | member ha hk hb hc _ he _ ih ih' =>
    simp only [List.length_cons, List.length_append] at hs
    exact .member ha hk hb hc (ih hd (by omega)) he (ih' hd (by omega))

/-- A text of the grammar stands for one value, however deep it is taken to be. -/
theorem IsText.unique {float : PyStr → F} {d d' : Nat} {t : PyStr} {v v' : Value F}
    (h : IsText (rfc8259 float) d t v) (h' : IsText (rfc8259 float) d' t v') : v = v' := by
  have read : ∀ {e : Nat} {w : Value F}, e ≤ max d d' → IsText (rfc8259 float) e t w →
      loads ⟨float, t.length⟩ (max d d') t = .ok w := by
    rintro e w he ⟨a, s, b, ha, hs, hb, rfl⟩
    refine loads_ok_iff.mpr ⟨a, s, b, ha, hs.widen ?_ rfl he ?_, hb, rfl⟩
    · intro x hx
      simp only [rfc8259, Decoder.words, List.mem_cons, List.not_mem_nil, or_false] at hx ⊢
      rcases hx with rfl | rfl | rfl <;> simp
    · simp only [List.length_append]; omega
  have := (read (Nat.le_max_left d d') h).symm.trans (read (Nat.le_max_right d d') h')
  cases this
  rfl

/-! ## What is nested too deeply -/

theorem scanOnce_recursion {fuel depth c : Nat} {t : PyStr} :
    scanOnce D (fuel + 1) depth (c :: t) = .error .recursion ↔
      (depth = 0 ∧ (c = 0x5b ∨ c = 0x7b)) ∨
      (c = 0x7b ∧ ∃ d, depth = d + 1 ∧ NotHead 0x7d (skipWs t) ∧
        scanMembers D fuel d [] (skipWs t) = .error .recursion) ∨
      (c = 0x5b ∧ ∃ d, depth = d + 1 ∧ NotHead 0x5d (skipWs t) ∧
        scanItems D fuel d [] (skipWs t) = .error .recursion) := by
  rw [scanOnce.eq_def]
  by_cases h₁ : c = 0x22
  · subst h₁
    cases h : scanString t with
    | none => simp [h]
    | some p => simp [h]
  by_cases h₂ : c = 0x7b
  · subst h₂
    cases depth with
    | zero => simp
    | succ d =>
      simp only [Nat.reduceEqDiff, if_true, if_false, false_and, or_false, false_or, true_and,
        Nat.add_eq_zero_iff, Nat.one_ne_zero, and_false, Nat.add_right_cancel_iff, exists_eq_left']
      split
      · rename_i r h; simp [h, NotHead]
      · rename_i h
        have hn : NotHead 0x7d (skipWs t) := fun r => h r
        simp [hn]
  by_cases h₃ : c = 0x5b
  · subst h₃
    cases depth with
    | zero => simp
    | succ d =>
      simp only [Nat.reduceEqDiff, if_true, if_false, false_and, false_or, true_and,
        Nat.add_eq_zero_iff, Nat.one_ne_zero, and_false, Nat.add_right_cancel_iff, exists_eq_left']
      split
      · rename_i r h; simp [h, NotHead]
      · rename_i h
        have hn : NotHead 0x5d (skipWs t) := fun r => h r
        simp [hn]
  · have hs : D.scalar (c :: t) ≠ .error .recursion := fun h => by cases scalar_error h
    simp [h₁, h₂, h₃, hs]

theorem scanMembers_recursion {fuel depth : Nat} {acc : List (PyStr × Value F)} {s : PyStr} :
    scanMembers D (fuel + 1) depth acc s = .error .recursion ↔
      ∃ t k r₁ r₂, s = 0x22 :: t ∧ scanString t = some (k, r₁) ∧ skipWs r₁ = 0x3a :: r₂ ∧
        (scanOnce D fuel depth (skipWs r₂) = .error .recursion ∨
          ∃ w r₃ r₄, scanOnce D fuel depth (skipWs r₂) = .ok (w, r₃) ∧ skipWs r₃ = 0x2c :: r₄ ∧
            scanMembers D fuel depth (assocSet acc k w) (skipWs r₄) = .error .recursion) := by
  constructor
  · intro h
    rw [scanMembers.eq_def] at h
    simp only at h
    split at h
    · rename_i t
      split at h
      · cases h
      · rename_i k r₁ hk
        split at h
        · rename_i r₂ hr
          split at h
          · rename_i e he
            cases h
            exact ⟨t, k, r₁, r₂, rfl, hk, hr, .inl he⟩
          · rename_i w r₃ hw
            split at h
            · cases h
            · rename_i r₄ hc
              exact ⟨t, k, r₁, r₂, rfl, hk, hr, .inr ⟨w, r₃, r₄, hw, hc, h⟩⟩
            · cases h
        · cases h
    · cases h
  · rintro ⟨t, k, r₁, r₂, rfl, hk, hr, hw | ⟨w, r₃, r₄, hw, hc, h⟩⟩
    · rw [scanMembers.eq_def]; simp only [hk, hr, hw]
    · rw [scanMembers.eq_def]; simp only [hk, hr, hw, hc, h]

theorem scanItems_recursion {fuel depth : Nat} {acc : List (Value F)} {s : PyStr} :
    scanItems D (fuel + 1) depth acc s = .error .recursion ↔
      scanOnce D fuel depth s = .error .recursion ∨
        ∃ w r₃ r₄, scanOnce D fuel depth s = .ok (w, r₃) ∧ skipWs r₃ = 0x2c :: r₄ ∧
          scanItems D fuel depth (acc ++ [w]) (skipWs r₄) = .error .recursion := by
  constructor
  · intro h
    rw [scanItems.eq_def] at h
    simp only at h
    split at h
    · rename_i e he
      cases h
      exact .inl he
    · rename_i w r₃ hw
      split at h
      · cases h
      · rename_i r₄ hc
        exact .inr ⟨w, r₃, r₄, hw, hc, h⟩
      · cases h
  · rintro (hw | ⟨w, r₃, r₄, hw, hc, h⟩)
    · rw [scanItems.eq_def]; simp only [hw]
    · rw [scanItems.eq_def]; simp only [hw, hc, h]

theorem ItemsBefore.ws {G : Dialect F} {d : Nat} {a s : PyStr} (ha : Ws a)
    (h : ItemsBefore G d s) : ItemsBefore G d (a ++ s) := by
  cases h with
  | first ha' => exact .first (ha.append ha')
  | next ha' hv hb ht =>
    rw [← List.append_assoc]
    exact .next (ha.append ha') hv hb ht

theorem MembersBefore.ws {G : Dialect F} {d : Nat} {a s : PyStr} (ha : Ws a)
    (h : MembersBefore G d s) : MembersBefore G d (a ++ s) := by
  cases h with
  | first ha' hk hb hc =>
    rw [← List.append_assoc]
    exact .first (ha.append ha') hk hb hc
  | next ha' hk hb hc hv he ht =>
    rw [← List.append_assoc]
    exact .next (ha.append ha') hk hb hc hv he ht

/-- Where the scanners find a text nested too deeply, it is. -/
theorem scan_opens (D : Decoder F) (fuel : Nat) :
    (∀ {depth s}, scanOnce D fuel depth s = .error .recursion →
      ∃ p c r, Opens D.dialect depth p ∧ (c = 0x5b ∨ c = 0x7b) ∧ s = p ++ c :: r) ∧
    (∀ {depth acc s}, scanMembers D fuel depth acc s = .error .recursion →
      ∃ m p c r, MembersBefore D.dialect depth m ∧ Opens D.dialect depth p ∧
        (c = 0x5b ∨ c = 0x7b) ∧ s = m ++ (p ++ c :: r)) ∧
    (∀ {depth acc s}, scanItems D fuel depth acc s = .error .recursion →
      ∃ m p c r, ItemsBefore D.dialect depth m ∧ Opens D.dialect depth p ∧
        (c = 0x5b ∨ c = 0x7b) ∧ s = m ++ (p ++ c :: r)) := by
  induction fuel with
  | zero =>
    refine ⟨?_, ?_, ?_⟩
    · intro _ _ h; cases h
    · intro _ _ _ h; cases h
    · intro _ _ _ h; cases h
  | succ fuel ih =>
    obtain ⟨ih₁, ih₂, ih₃⟩ := ih
    have sound := scan_derives D fuel
    refine ⟨?_, ?_, ?_⟩
    · intro depth s h
      cases s with
      | nil => cases h
      | cons c t =>
        rw [scanOnce_recursion] at h
        rcases h with ⟨rfl, hc⟩ | ⟨rfl, d, rfl, -, h⟩ | ⟨rfl, d, rfl, -, h⟩
        · exact ⟨[], c, t, .none, hc, rfl⟩
        · obtain ⟨m, p, c, r, hm, hp, hc, hs⟩ := ih₂ h
          obtain ⟨a, ha, rfl⟩ := exists_ws_of_skipWs hs
          exact ⟨_, c, r, .object (hm.ws ha) hp, hc, by simp⟩
        · obtain ⟨m, p, c, r, hm, hp, hc, hs⟩ := ih₃ h
          obtain ⟨a, ha, rfl⟩ := exists_ws_of_skipWs hs
          exact ⟨_, c, r, .array (hm.ws ha) hp, hc, by simp⟩
    · intro depth acc s h
      rw [scanMembers_recursion] at h
      obtain ⟨t, k, r₁, r₂, rfl, hk, hr, h⟩ := h
      obtain ⟨q, rfl, hq⟩ := chars_of_scanString hk
      obtain ⟨b, hb, rfl⟩ := exists_ws_of_skipWs hr
      rcases h with h | ⟨w, r₃, r₄, hw, hcomma, h⟩
      · obtain ⟨p, c, r, hp, hc, hs⟩ := ih₁ h
        obtain ⟨a, ha, rfl⟩ := exists_ws_of_skipWs hs
        refine ⟨_, p, c, r, .first ws_nil hq hb ha, hp, hc, ?_⟩
        simp [quoted]
      · obtain ⟨s, hs, hd⟩ := sound.1 hw
        obtain ⟨a, ha, rfl⟩ := exists_ws_of_skipWs hs
        obtain ⟨e, he, rfl⟩ := exists_ws_of_skipWs hcomma
        obtain ⟨m, p, c, r, hm, hp, hc, hs⟩ := ih₂ h
        obtain ⟨a', ha', rfl⟩ := exists_ws_of_skipWs hs
        refine ⟨_, p, c, r, .next ws_nil hq hb ha hd he (hm.ws ha'), hp, hc, ?_⟩
        simp [quoted]
    · intro depth acc s h
      rw [scanItems_recursion] at h
      rcases h with h | ⟨w, r₃, r₄, hw, hcomma, h⟩
      · obtain ⟨p, c, r, hp, hc, rfl⟩ := ih₁ h
        exact ⟨[], p, c, r, .first ws_nil, hp, hc, rfl⟩
      · obtain ⟨s, rfl, hd⟩ := sound.1 hw
        obtain ⟨b, hb, rfl⟩ := exists_ws_of_skipWs hcomma
        obtain ⟨m, p, c, r, hm, hp, hc, hs⟩ := ih₃ h
        obtain ⟨a, ha, rfl⟩ := exists_ws_of_skipWs hs
        refine ⟨_, p, c, r, .next ws_nil hd hb (hm.ws ha), hp, hc, ?_⟩
        simp

/-- That a scan of a text finds it nested too deeply, from enough fuel. -/
def Overflows (D : Decoder F) (d : Nat) (s : PyStr) (n : Nat) : Prop :=
  ∀ {fuel}, 2 * n + 1 ≤ fuel → scanOnce D fuel d s = .error .recursion

theorem Opens.head {G : Dialect F} {d : Nat} {p r : PyStr} {c : Nat} (h : Opens G d p)
    (hc : c = 0x5b ∨ c = 0x7b) : ∃ x t, p ++ c :: r = x :: t ∧ (x = 0x5b ∨ x = 0x7b) := by
  cases h with
  | none => exact ⟨c, r, rfl, hc⟩
  | array => exact ⟨0x5b, _, rfl, .inl rfl⟩
  | object => exact ⟨0x7b, _, rfl, .inr rfl⟩

theorem ItemsBefore.overflows {d x : Nat} {m t : PyStr} (h : ItemsBefore D.dialect d m)
    (hx : x = 0x5b ∨ x = 0x7b) {n : Nat} (ht : Overflows D d (x :: t) n) {fuel : Nat}
    {acc : List (Value F)} (hf : 2 * (m.length + n) + 2 ≤ fuel) :
    NotHead 0x5d (skipWs (m ++ x :: t)) ∧
      scanItems D fuel d acc (skipWs (m ++ x :: t)) = .error .recursion := by
  induction h generalizing fuel acc with
  | first ha =>
    obtain ⟨k, rfl⟩ : ∃ k, fuel = k + 1 := ⟨fuel - 1, by omega⟩
    have hws : isWs x = false := by rcases hx with rfl | rfl <;> rfl
    rw [skipWs_ws_cons ha hws, scanItems_recursion]
    refine ⟨?_, .inl (ht (by omega))⟩
    intro u hu
    cases hu
    exact absurd hx (by decide)
  | @next a s b m v ha hv hb _ ih =>
    simp only [List.length_append, List.length_cons] at hf
    obtain ⟨k, rfl⟩ : ∃ k, fuel = k + 1 := ⟨fuel - 1, by omega⟩
    simp only [List.append_assoc, List.cons_append]
    rw [hv.skipWs ha, scanItems_recursion]
    have hread := hv.reads (by omega : 2 * s.length ≤ k)
      (stop_ws hb (stop_cons (s := m ++ x :: t) (.inl rfl)))
    exact ⟨hv.notHead (.inl rfl), .inr ⟨v, _, _, hread, skipWs_ws_cons hb rfl _, (ih (by omega)).2⟩⟩

theorem MembersBefore.overflows {d x : Nat} {m t : PyStr} (h : MembersBefore D.dialect d m)
    (hx : x = 0x5b ∨ x = 0x7b) {n : Nat} (ht : Overflows D d (x :: t) n) {fuel : Nat}
    {acc : List (PyStr × Value F)} (hf : 2 * (m.length + n) + 2 ≤ fuel) :
    NotHead 0x7d (skipWs (m ++ x :: t)) ∧
      scanMembers D fuel d acc (skipWs (m ++ x :: t)) = .error .recursion := by
  induction h generalizing fuel acc with
  | @first a k x' b c ha hk hb hc =>
    obtain ⟨j, rfl⟩ : ∃ j, fuel = j + 1 := ⟨fuel - 1, by omega⟩
    have hws : isWs x = false := by rcases hx with rfl | rfl <;> rfl
    simp only [List.append_assoc, List.cons_append]
    rw [skipWs_key ha, scanMembers_recursion]
    refine ⟨fun u hu => (by cases hu), _, x', _, _, rfl, scanString_of_chars hk _,
      skipWs_ws_cons hb rfl _, .inl ?_⟩
    rw [skipWs_ws_cons hc hws]
    exact ht (by omega)
  | @next a k x' b c s e m v ha hk hb hc hv he _ ih =>
    simp only [List.length_append, List.length_cons] at hf
    obtain ⟨j, rfl⟩ : ∃ j, fuel = j + 1 := ⟨fuel - 1, by omega⟩
    simp only [List.append_assoc, List.cons_append]
    rw [skipWs_key ha, scanMembers_recursion]
    have hread := hv.reads (by omega : 2 * s.length ≤ j)
      (stop_ws he (stop_cons (s := m ++ x :: t) (.inl rfl)))
    rw [← hv.skipWs hc] at hread
    exact ⟨fun u hu => (by cases hu), _, x', _, _, rfl, scanString_of_chars hk _,
      skipWs_ws_cons hb rfl _, .inr ⟨v, _, _, hread, skipWs_ws_cons he rfl _, (ih (by omega)).2⟩⟩

/-- A text that opens too much is found to, whatever follows. -/
theorem Opens.overflows {d c : Nat} {p r : PyStr} (h : Opens D.dialect d p)
    (hc : c = 0x5b ∨ c = 0x7b) : Overflows D d (p ++ c :: r) p.length := by
  induction h with
  | none =>
    intro fuel hf
    obtain ⟨n, rfl⟩ : ∃ n, fuel = n + 1 := ⟨fuel - 1, by omega⟩
    rw [List.nil_append, scanOnce_recursion]
    exact .inl ⟨rfl, hc⟩
  | @array d m p hm hp ih =>
    intro fuel hf
    simp only [List.length_cons, List.length_append] at hf
    obtain ⟨n, rfl⟩ : ∃ n, fuel = n + 1 := ⟨fuel - 1, by omega⟩
    obtain ⟨x, t, hx, hb⟩ : ∃ x t, p ++ c :: r = x :: t ∧ _ := hp.head hc
    rw [List.cons_append, List.append_assoc, scanOnce_recursion, hx]
    rw [hx] at ih
    exact .inr (.inr ⟨rfl, d, rfl, hm.overflows hb ih (by omega)⟩)
  | @object d m p hm hp ih =>
    intro fuel hf
    simp only [List.length_cons, List.length_append] at hf
    obtain ⟨n, rfl⟩ : ∃ n, fuel = n + 1 := ⟨fuel - 1, by omega⟩
    obtain ⟨x, t, hx, hb⟩ : ∃ x t, p ++ c :: r = x :: t ∧ _ := hp.head hc
    rw [List.cons_append, List.append_assoc, scanOnce_recursion, hx]
    rw [hx] at ih
    exact .inr (.inl ⟨rfl, d, rfl, hm.overflows hb ih (by omega)⟩)

/-- **Where `loads` exceeds its depth**: where the text opens too much before anything
in it is refused. -/
theorem loads_recursion_iff {d : Nat} {t : PyStr} :
    loads D d t = .error .recursion ↔ TooDeep D.dialect d t := by
  constructor
  · intro h
    unfold loads at h
    split at h
    · cases h
    split at h
    · rename_i e hs
      cases h
      obtain ⟨p, c, r, hp, hc, hs⟩ := (scan_opens D _).1 hs
      obtain ⟨a, ha, rfl⟩ := exists_ws_of_skipWs hs
      exact ⟨a, p, c, r, ha, hp, hc, rfl⟩
    · split at h <;> cases h
  · rintro ⟨a, p, c, r, ha, hp, hc, rfl⟩
    obtain ⟨x, t, hx, hb⟩ : ∃ x t, p ++ c :: r = x :: t ∧ _ := hp.head hc
    have hws : isWs x = false := by rcases hb with rfl | rfl <;> rfl
    have hbom : startsWith (a ++ x :: t) [0xfeff] = false := by
      cases a with
      | nil =>
        have hne : x ≠ 0xfeff := by omega
        exact startsWith_of_ne hne _
      | cons y a =>
        have hne : y ≠ 0xfeff := by
          rintro rfl
          exact absurd (ha _ List.mem_cons_self) (by decide)
        exact startsWith_of_ne hne _
    have hscan : scanOnce D (2 * (a ++ x :: t).length + 1) d (x :: t) = .error .recursion := by
      rw [← hx]
      refine hp.overflows hc ?_
      simp only [List.length_append]; omega
    unfold loads
    rw [hx, hbom, skipWs_ws_cons ha hws, hscan]
    rfl

end NmLogging.Json
