import Lurker.Dcc.Address

/-!
# The address judged is the address dialled

`fieldAddress` is what an offer's field means, `denotes` what a host means and
`dialled` where a connection to it goes. On every host the decoder returns they agree,
and so does the guard, unless an octet of a dotted quad has a leading zero.
-/

namespace Lurker.Dcc

open Lurker.E2e

/-- A text that is `Number`'s own: decimal digits are read exactly as far as a number is
exact, and no further ones come out below that. -/
structure ReadsDigits (Number : Text → Option Int) : Prop where
  exact : ∀ s : Text, s ≠ [] → s.all Char.isDigit = true → Nat.ofDigitChars 10 s 0 ≤ 2 ^ 53 →
    Number s = some (Nat.ofDigitChars 10 s 0 : Int)
  large : ∀ s : Text, s ≠ [] → s.all Char.isDigit = true → 2 ^ 53 < Nat.ofDigitChars 10 s 0 →
    ∀ n, Number s = some n → 2 ^ 53 ≤ n

/-- The address an offer's field names: a number of 32 bits in network byte order, a dotted
quad of decimal octets, or an IPv6 literal. -/
def fieldAddress (addr : Text) : Option Address :=
  let s := trim addr
  if ':' ∈ s then denotesV6 s
  else if isDottedQuad s then
    let octets := (s.splitOn '.').map (Nat.ofDigitChars 10 · 0)
    if octets.all (· ≤ 255) then some (.v4 (ofBase 256 octets)) else none
  else if s ≠ [] ∧ s.all Char.isDigit ∧ Nat.ofDigitChars 10 s 0 < 2 ^ 32 then
    some (.v4 (Nat.ofDigitChars 10 s 0))
  else none

/-- A dotted quad with an octet of several digits that starts with a zero. -/
def HasLeadingZero (addr : Text) : Prop :=
  isDottedQuad (trim addr) = true ∧
    ∃ o ∈ (trim addr).splitOn '.', o.head? = some '0' ∧ o.length ≠ 1

/-- Where a connection to a host goes: a literal is its own address, anything else is
looked up. -/
def dialled (lookup : Text → Option Address) (host : Text) : Option Address :=
  if isIP host = 0 then lookup host else denotes host

/-- An octet as a resolver reads it: octal after a leading zero. -/
def octalOctet (o : Text) : Nat :=
  if o.head? = some '0' then Nat.ofDigitChars 8 o 0 else Nat.ofDigitChars 10 o 0

/-- A resolver reads the octets of a dotted quad that is no literal. -/
def ReadsOctal (lookup : Text → Option Address) : Prop :=
  ∀ host, isDottedQuad host = true → isIP host = 0 →
    lookup host = some (.v4 (ofBase 256 ((host.splitOn '.').map octalOctet)))

/-- Neither an address nor any IPv4 address embedded in it is internal; for IPv6 it is
global unicast. -/
def Public : Address → Prop
  | .v4 n => ¬ Internal n
  | .v6 n => (∀ m, Embeds n m → ¬ Internal m) ∧ GlobalUnicast n

/-- The same, but an IPv6 address that ends in an IPv4 address stands or falls with that. -/
def PublicOrEmbeds : Address → Prop
  | .v4 n => ¬ Internal n
  | .v6 n => (∀ m, Embeds n m → ¬ Internal m) ∧ (EmbedsLast n ∨ GlobalUnicast n)

/-- A host is a literal of the address that the field names, it is dialled there, and where
it is let through that address satisfies `allowed`. -/
structure Judged (Number : Text → Option Int) (lookup : Text → Option Address)
    (allowed : Address → Prop) (addr host : Text) : Prop where
  literal : isIP host = 4 ∨ isIP host = 6
  same : ∃ x, fieldAddress addr = some x ∧ denotes host = some x ∧ dialled lookup host = some x ∧
    (isBlockedDccHost Number host = false → allowed x)

/-- Every decoded host is judged as it is dialled, and encoding a literal undoes decoding. -/
structure JudgedAsDialled (Number : Text → Option Int) (lookup : Text → Option Address)
    (allowed : Address → Prop) (skipped : Text → Prop) : Prop where
  decoded : ∀ addr host, decodeDccAddress Number addr = some host → ¬ skipped addr →
    Judged Number lookup allowed addr host
  encoded : ∀ host, isIP host ≠ 0 → ∃ addr, encodeDccAddress Number host = some addr ∧
    decodeDccAddress Number addr = some host

theorem trim_eq_self {s : Text} (h : ∀ c ∈ s, isSpace c = false) : trim s = s := by
  unfold trim
  have hdrop : s.dropWhile isSpace = s := by
    cases s with
    | nil => rfl
    | cons c s => rw [List.dropWhile_cons, if_neg (by simp [h c])]
  rw [hdrop, List.rdropWhile_eq_self_iff]
  intro hne
  simp [h _ (List.getLast_mem hne)]

/-- A run the guard takes apart reads the same, in groups of 16 bits. -/
theorem groupsOf_spec {s : Text} {gs : List Nat} (h : groupsOf s = some gs) :
    readRun s = some gs ∧ (∀ g ∈ gs, g < 65536) ∧ ∀ c ∈ s, isHex c = true ∨ c = ':' := by
  unfold groupsOf at h
  split at h
  · rename_i hs
    obtain rfl := Option.some.inj h
    subst hs
    exact ⟨rfl, by simp, by simp⟩
  · rename_i hs
    have hread (ps : List Text) (gs : List Nat) (h : ps.mapM readGroup = some gs) :
        readGroups ps = some gs ∧ (∀ g ∈ gs, g < 65536) ∧
          ∀ p ∈ ps, p.all isHex = true := by
      induction ps generalizing gs with
      | nil =>
        obtain rfl := Option.some.inj h
        exact ⟨rfl, by simp, by simp⟩
      | cons p ps ih =>
        rw [List.mapM_cons] at h
        cases hg : readGroup p with
        | none =>
          rw [hg] at h
          cases h
        | some g =>
          cases hgs : ps.mapM readGroup with
          | none =>
            rw [hg, hgs] at h
            cases h
          | some gs' =>
            rw [hg, hgs] at h
            obtain rfl := Option.some.inj h
            obtain ⟨hrest, hlt, hhex⟩ := ih gs' hgs
            refine ⟨?_, ?_, ?_⟩
            · cases ps with
              | nil =>
                obtain rfl := Option.some.inj hgs
                rw [readGroups, readLast, hg]
                rfl
              | cons q ps =>
                rw [readGroups, hg, hrest]
                rfl
            · exact List.forall_mem_cons.mpr ⟨readGroup_lt hg, hlt⟩
            · exact List.forall_mem_cons.mpr ⟨(isHex_of_readGroup hg).2, hhex⟩
    obtain ⟨hgroups, hlt, hhex⟩ := hread _ gs h
    refine ⟨?_, hlt, fun c hc => ?_⟩
    · rw [readRun, if_neg hs, hgroups]
    · rcases mem_splitOn ':' hc with hc | ⟨p, hp, hc⟩
      · exact .inr hc
      · exact .inl (List.all_eq_true.mp (hhex p hp) c hc)

theorem splitElision_eq_singleton {n : Nat} {s x : Text} (h : splitElision n s = [x]) : x = s := by
  cases n with
  | zero => exact (List.singleton_inj.mp h).symm
  | succ n =>
    rw [splitElision] at h
    split at h
    · exact (List.singleton_inj.mp h).symm
    · obtain ⟨-, hnil⟩ := List.cons.inj h
      cases n with
      | zero => cases hnil
      | succ n =>
        rw [splitElision] at hnil
        split at hnil <;> cases hnil

/-- The guard's groups are those the literal denotes. -/
theorem expandGroups_spec {text : Text} {gs : List Nat} (h : expandGroups text = some gs) :
    readV6 text = some gs ∧ gs.length = 8 ∧ (∀ g ∈ gs, g < 65536) ∧
      ∀ c ∈ text, isHex c = true ∨ c = ':' := by
  unfold expandGroups at h
  split at h
  · rename_i x hsplit
    split at h
    · rename_i groups hgroups
      split at h
      · rename_i hlen
        obtain rfl := Option.some.inj h
        obtain ⟨hread, hlt, hchars⟩ := groupsOf_spec hgroups
        refine ⟨?_, hlen, hlt, hchars⟩
        cases hcut : cutElision text with
        | none =>
          simp only [readV6, hcut, hread]
          exact if_pos hlen
        | some lr =>
          cases htext : text with
          | nil =>
            rw [htext] at hcut
            cases hcut
          | cons c rest =>
            rw [htext] at hsplit hcut
            rw [List.length_cons, splitElision, hcut] at hsplit
            obtain ⟨-, hnil⟩ := List.cons.inj hsplit
            cases rest with
            | nil => cases hnil
            | cons d rest =>
              rw [List.length_cons, splitElision] at hnil
              split at hnil <;> cases hnil
      · cases h
    · cases h
  · rename_i before after hsplit
    split at h
    · rename_i left right hleft hright
      split at h
      · cases h
      · rename_i hlen
        obtain rfl := Option.some.inj h
        obtain ⟨hreadLeft, hltLeft, hcharsLeft⟩ := groupsOf_spec hleft
        obtain ⟨hreadRight, hltRight, hcharsRight⟩ := groupsOf_spec hright
        have hcut : cutElision text = some (before, after) := by
          cases htext : text with
          | nil =>
            rw [htext] at hsplit
            cases hsplit
          | cons c rest =>
            rw [htext, List.length_cons, splitElision] at hsplit
            split at hsplit
            · cases hsplit
            · rename_i b a hcut
              obtain ⟨rfl, hone⟩ := List.cons.inj hsplit
              rw [hcut, splitElision_eq_singleton hone]
        have hdot : '.' ∉ before := fun hmem =>
          (hcharsLeft '.' hmem).elim (fun h => by revert h; decide) (fun h => by revert h; decide)
        refine ⟨?_, ?_, ?_, ?_⟩
        · simp only [readV6, hcut, hreadLeft, hreadRight]
          rw [if_neg hdot, if_pos (by omega)]
        · simp only [List.length_append, List.length_replicate]
          omega
        · intro g hg
          simp only [List.mem_append, List.mem_replicate] at hg
          rcases hg with (hg | ⟨-, rfl⟩) | hg
          · exact hltLeft g hg
          · decide
          · exact hltRight g hg
        · intro c hc
          rw [cutElision_eq_some hcut] at hc
          simp only [List.mem_append, List.mem_cons] at hc
          rcases hc with hc | rfl | rfl | hc
          · exact hcharsLeft c hc
          · exact .inr rfl
          · exact .inr rfl
          · exact hcharsRight c hc
    · cases h
  · cases h

theorem cutLastColon_eq_some {s before last : Text} (h : cutLastColon s = some (before, last)) :
    s = before ++ ':' :: last ∧ ':' ∉ last := by
  unfold cutLastColon at h
  split at h
  · rename_i hmem
    obtain ⟨rfl, rfl⟩ := Prod.mk.inj (Option.some.inj h)
    have hne : s.rdropWhile (· ≠ ':') ≠ [] := by
      rw [Ne, List.rdropWhile_eq_nil_iff]
      intro hall
      simpa using hall ':' hmem
    have hcolon : (s.rdropWhile (· ≠ ':')).getLast hne = ':' := by
      have := List.rdropWhile_last_not (· ≠ ':') s hne
      simpa using this
    constructor
    · have hback := List.dropLast_append_getLast hne
      rw [hcolon] at hback
      conv_lhs => rw [← List.rdropWhile_append_rtakeWhile (p := (· ≠ ':')) (l := s), ← hback]
      simp
    · intro hmem
      have := List.mem_rtakeWhile_imp hmem
      simp at this
  · cases h

section Quads

variable {Number : Text → Option Int}

theorem quad_pieces {s : Text} (h : isDottedQuad s = true) : ∃ a b c d, s.splitOn '.' = [a, b, c, d] ∧
    ∀ o ∈ [a, b, c, d], o ≠ [] ∧ o.length ≤ 3 ∧ o.all Char.isDigit = true := by
  unfold isDottedQuad at h
  obtain ⟨hlen, hall⟩ := Bool.and_eq_true_iff.mp h
  have hlen : (s.splitOn '.').length = 4 := of_decide_eq_true hlen
  match hsplit : s.splitOn '.', hlen with
  | [a, b, c, d], _ =>
    refine ⟨a, b, c, d, rfl, fun o ho => ?_⟩
    rw [hsplit] at hall
    have := List.all_eq_true.mp hall o ho
    simpa [and_assoc] using this

theorem ofDigitChars_lt {s : Text} (h : s.all Char.isDigit = true) :
    Nat.ofDigitChars 10 s 0 < 10 ^ s.length := by
  induction s using List.reverseRecOn with
  | nil => simp
  | append_singleton s c ih =>
    rw [List.all_append, Bool.and_eq_true_iff] at h
    obtain ⟨k, rfl⟩ := exists_digitChar (c := c) (by simpa using h.2)
    have hs := ih h.1
    rw [Nat.ofDigitChars_append, Nat.ofDigitChars_cons_digitChar_of_lt_ten k.isLt,
      Nat.ofDigitChars_nil, List.length_append, List.length_singleton, Nat.pow_succ]
    have := k.isLt
    omega

/-- An octet is short enough to be read exactly. -/
theorem number_octet (hNumber : ReadsDigits Number) {o : Text}
    (h : o ≠ [] ∧ o.length ≤ 3 ∧ o.all Char.isDigit = true) :
    Number o = some (Nat.ofDigitChars 10 o 0 : Int) := by
  obtain ⟨hne, hlen, hdigits⟩ := h
  refine hNumber.exact o hne hdigits ?_
  have hlt := ofDigitChars_lt hdigits
  have hpow : 10 ^ o.length ≤ 10 ^ 3 := Nat.pow_le_pow_right (by decide) hlen
  omega

theorem number_decimal (hNumber : ReadsDigits Number) {n : Nat} (h : n ≤ 2 ^ 53) :
    Number (decimal n) = some (n : Int) := by
  have hdigits : (decimal n).all Char.isDigit = true :=
    List.all_eq_true.mpr fun _ hc => isDigit_decimal hc
  have hvalue : Nat.ofDigitChars 10 (decimal n) 0 = n := Nat.ofDigitChars_ten_toDigits
  rw [hNumber.exact (decimal n) (decimal_ne_nil n) hdigits (by rw [hvalue]; exact h), hvalue]

/-- An octet without a leading zero is a literal's. -/
theorem readOctet_of_piece {o : Text} (h : o ≠ [] ∧ o.length ≤ 3 ∧ o.all Char.isDigit = true)
    (hlead : ¬ (o.head? = some '0' ∧ o.length ≠ 1)) (hle : Nat.ofDigitChars 10 o 0 ≤ 255) :
    readOctet o = some (Nat.ofDigitChars 10 o 0) := by
  unfold readOctet
  refine if_pos ⟨h.1, h.2.2, h.2.1, fun hzero => ?_, hle⟩
  by_contra hlen
  exact hlead ⟨hzero, hlen⟩

theorem piece_of_readOctet {o : Text} {n : Nat} (h : readOctet o = some n) :
    o ≠ [] ∧ o.length ≤ 3 ∧ o.all Char.isDigit = true := by
  unfold readOctet at h
  split at h
  · rename_i ho
    exact ⟨ho.1, ho.2.2.1, ho.2.1⟩
  · cases h

theorem isDottedQuad_quadText {a b c d : Nat} (ha : a ≤ 255) (hb : b ≤ 255) (hc : c ≤ 255)
    (hd : d ≤ 255) : isDottedQuad (quadText a b c d) = true := by
  have hpiece : ∀ n ≤ 255, (decide (decimal n ≠ []) && decide ((decimal n).length ≤ 3) &&
      (decimal n).all Char.isDigit) = true := by
    intro n hn
    obtain ⟨hne, hlen, hdigits⟩ := piece_of_readOctet (readOctet_eq_some.mpr ⟨hn, rfl⟩)
    simp only [hne, hlen, hdigits, ne_eq, not_false_eq_true, decide_true, Bool.and_self]
  unfold isDottedQuad
  rw [splitOn_quadText, Bool.and_eq_true_iff]
  refine ⟨rfl, List.all_eq_true.mpr fun o ho => ?_⟩
  simp only [List.mem_cons, List.not_mem_nil, or_false] at ho
  rcases ho with rfl | rfl | rfl | rfl
  · exact hpiece a ha
  · exact hpiece b hb
  · exact hpiece c hc
  · exact hpiece d hd

theorem unblocked_iff {c : Prop} [Decidable c] {rest : Bool} :
    (if c then true else rest) = false ↔ ¬ c ∧ rest = false := by
  by_cases h : c
  · simp [h]
  · simp [h]

/-- The blocks, by the first two octets of their addresses. -/
theorem internal_octets {a b c d : Nat} (hb : b ≤ 255) (hc : c ≤ 255) (hd : d ≤ 255)
    (h : Internal (ofBase 256 [a, b, c, d])) :
    a = 0 ∨ a = 10 ∨ (a = 100 ∧ b ≥ 64 ∧ b ≤ 127) ∨ a = 127 ∨ (a = 169 ∧ b = 254) ∨
      (a = 172 ∧ b ≥ 16 ∧ b ≤ 31) ∨ (a = 192 ∧ b = 168) ∨ a ≥ 224 := by
  obtain ⟨block, hblock, hsame⟩ := h
  have hpair : ofBase 256 [a, b, c, d] / 2 ^ 16 = a * 256 + b := by
    simp only [ofBase, List.foldl_cons, List.foldl_nil]
    omega
  -- No block is told by more than sixteen bits.
  have hbits : ∀ m, 16 ≤ m → ofBase 256 [a, b, c, d] / 2 ^ m = (a * 256 + b) / 2 ^ (m - 16) := by
    intro m hm
    rw [← hpair, Nat.div_div_eq_div_mul, ← Nat.pow_add, Nat.add_sub_cancel' hm]
  simp only [internalBlocks, List.mem_cons, List.not_mem_nil, or_false] at hblock
  rcases hblock with rfl | rfl | rfl | rfl | rfl | rfl | rfl | rfl | rfl
  all_goals
    simp (disch := decide) only [hbits] at hsame
    simp only [ofBase, List.foldl_cons, List.foldl_nil, Nat.reduceSub, Nat.reducePow,
      Nat.reduceMul, Nat.reduceAdd, Nat.reduceDiv] at hsame
  · exact .inl (by omega)
  · exact .inr (.inl (by omega))
  · exact .inr (.inr (.inl (by omega)))
  · exact .inr (.inr (.inr (.inl (by omega))))
  · exact .inr (.inr (.inr (.inr (.inl (by omega)))))
  · exact .inr (.inr (.inr (.inr (.inr (.inl (by omega))))))
  · exact .inr (.inr (.inr (.inr (.inr (.inr (.inl (by omega)))))))
  all_goals exact .inr (.inr (.inr (.inr (.inr (.inr (.inr (by omega)))))))

/-- What the guard lets through of a dotted quad is not internal. -/
theorem not_internal_of_unblocked (hNumber : ReadsDigits Number) {a b c d : Nat} (ha : a ≤ 255)
    (hb : b ≤ 255) (hc : c ≤ 255) (hd : d ≤ 255)
    (h : isBlockedIpv4 Number (quadText a b c d) = false) :
    ¬ Internal (ofBase 256 [a, b, c, d]) := by
  unfold isBlockedIpv4 at h
  rw [splitOn_quadText] at h
  simp only [List.map_cons, List.map_nil, number_decimal hNumber (show a ≤ 2 ^ 53 by omega),
    number_decimal hNumber (show b ≤ 2 ^ 53 by omega),
    number_decimal hNumber (show c ≤ 2 ^ 53 by omega),
    number_decimal hNumber (show d ≤ 2 ^ 53 by omega), unblocked_iff] at h
  obtain ⟨-, h0, h10, h127, h169, h172, h192, h100, h224, -⟩ := h
  intro hinternal
  rcases internal_octets hb hc hd hinternal with
    rfl | rfl | ⟨rfl, hlow, hhigh⟩ | rfl | ⟨rfl, rfl⟩ | ⟨rfl, hlow, hhigh⟩ | ⟨rfl, rfl⟩ | hlow
  · exact h0 rfl
  · exact h10 rfl
  · exact h100 ⟨rfl, Int.ofNat_le.mpr hlow, Int.ofNat_le.mpr hhigh⟩
  · exact h127 rfl
  · exact h169 ⟨rfl, rfl⟩
  · exact h172 ⟨rfl, Int.ofNat_le.mpr hlow, Int.ofNat_le.mpr hhigh⟩
  · exact h192 ⟨rfl, rfl⟩
  · exact h224 (Int.ofNat_le.mpr hlow)

/-- Two octets make a group. -/
theorem readGroup_pair {a b : Nat} (h : a ≤ 255 ∧ b ≤ 255) :
    readGroup (pair a b) = some (a * 256 + b) := by
  unfold pair
  rw [show ((a : Int) * 256 + b).toNat = a * 256 + b by omega]
  exact readGroup_toDigits (by omega)

theorem colon_not_mem_pair {a b : Nat} (h : a ≤ 255 ∧ b ≤ 255) : ':' ∉ pair a b := fun hmem =>
  absurd (List.all_eq_true.mp (isHex_of_readGroup (readGroup_pair h)).2 ':' hmem) (by decide)

/-- A dotted quad at the end of a literal reads as two groups, or not at all. -/
theorem readLast_quad {s a b c d : Text} (hsplit : s.splitOn '.' = [a, b, c, d]) :
    readLast s = none ∨ readLast s =
      some [Nat.ofDigitChars 10 a 0 * 256 + Nat.ofDigitChars 10 b 0,
        Nat.ofDigitChars 10 c 0 * 256 + Nat.ofDigitChars 10 d 0] := by
  have hgroup : readGroup s = none := by
    cases hread : readGroup s with
    | none => rfl
    | some g =>
      have hdot : '.' ∈ s := by
        rw [eq_of_splitOn hsplit]
        simp
      exact absurd (List.all_eq_true.mp (isHex_of_readGroup hread).2 '.' hdot) (by decide)
  unfold readLast
  rw [hgroup]
  cases hquad : readQuad s with
  | none => exact .inl rfl
  | some octets =>
    right
    obtain ⟨a', b', c', d', -, -, -, -, rfl, rfl⟩ := readQuad_eq_some.mp hquad
    rw [splitOn_quadText] at hsplit
    simp only [List.cons.injEq, and_true] at hsplit
    obtain ⟨rfl, rfl, rfl, rfl⟩ := hsplit
    simp only [decimal, Nat.ofDigitChars_ten_toDigits]

/-- The groups that the guard expands a literal to are those it denotes. -/
theorem parseIpv6_spec (hNumber : ReadsDigits Number) {s : Text} {gs ws : List Nat}
    (hparse : parseIpv6 Number s = some gs) (hread : readV6 s = some ws) :
    ws = gs ∧ gs.length = 8 ∧ ∀ g ∈ gs, g < 65536 := by
  unfold parseIpv6 at hparse
  split at hparse
  · cases hparse
  · rename_i text hrewrite
    obtain ⟨hsame, hlen, hlt, -⟩ := expandGroups_spec hparse
    refine ⟨?_, hlen, hlt⟩
    suffices readV6 s = readV6 text from Option.some.inj (hread.symm.trans (this.trans hsame))
    unfold rewriteQuad at hrewrite
    split at hrewrite
    · rename_i before last hcut
      obtain ⟨rfl, hcolon⟩ := cutLastColon_eq_some hcut
      split at hrewrite
      · rw [Option.some.inj hrewrite]
      · rename_i hquad
        simp only [Bool.or_eq_true, Bool.not_eq_true', not_or, Bool.not_eq_false] at hquad
        obtain ⟨a, b, c, d, hsplit, hpieces⟩ := quad_pieces hquad.2
        have ha := number_octet hNumber (hpieces a (by simp))
        have hb := number_octet hNumber (hpieces b (by simp))
        have hc := number_octet hNumber (hpieces c (by simp))
        have hd := number_octet hNumber (hpieces d (by simp))
        simp only [hsplit, List.map_cons, List.map_nil, ha, hb, hc, hd] at hrewrite
        split at hrewrite
        · cases hrewrite
        · rename_i hbad
          have hrange : (Nat.ofDigitChars 10 a 0 ≤ 255 ∧ Nat.ofDigitChars 10 b 0 ≤ 255) ∧
              Nat.ofDigitChars 10 c 0 ≤ 255 ∧ Nat.ofDigitChars 10 d 0 ≤ 255 := by omega
          obtain rfl := Option.some.inj hrewrite
          have hne : last ≠ [] := by
            rintro rfl
            simp at hsplit
          have hends := endsRun_piece hne hcolon
          rcases readLast_quad hsplit with hnone | hsome
          · rw [hnone] at hends
            rw [readV6_ends_none hends before] at hread
            cases hread
          · rw [hsome] at hends
            have hgroups := endsRun_groups (colon_not_mem_pair hrange.1) (colon_not_mem_pair hrange.2)
              (readGroup_pair hrange.1) (readGroup_pair hrange.2)
            rw [readV6_ends hends hgroups before]
            simp
    · rw [Option.some.inj hrewrite]

theorem percent_not_mem {s : Text} {gs : List Nat} (h : parseIpv6 Number s = some gs) : '%' ∉ s := by
  unfold parseIpv6 at h
  split at h
  · cases h
  · rename_i text hrewrite
    obtain ⟨-, -, -, hchars⟩ := expandGroups_spec h
    have hpercent : '%' ∉ text := fun hmem =>
      (hchars '%' hmem).elim (fun h => by revert h; decide) (fun h => by revert h; decide)
    unfold rewriteQuad at hrewrite
    split at hrewrite
    · rename_i before last hcut
      obtain ⟨rfl, -⟩ := cutLastColon_eq_some hcut
      split at hrewrite
      · rw [Option.some.inj hrewrite]
        exact hpercent
      · rename_i hquad
        simp only [Bool.or_eq_true, Bool.not_eq_true', not_or, Bool.not_eq_false] at hquad
        obtain ⟨a, b, c, d, hsplit, hpieces⟩ := quad_pieces hquad.2
        split at hrewrite
        · split at hrewrite
          · cases hrewrite
          · obtain rfl := Option.some.inj hrewrite
            intro hmem
            simp only [List.mem_append, List.mem_cons] at hmem
            rcases hmem with hmem | hcolon | hmem
            · exact hpercent (by simp [hmem])
            · cases hcolon
            · rcases mem_splitOn '.' hmem with hdot | ⟨p, hp, hc⟩
              · cases hdot
              · rw [hsplit] at hp
                exact absurd (List.all_eq_true.mp (hpieces p hp).2.2 '%' hc) (by decide)
        · cases hrewrite
    · rw [Option.some.inj hrewrite]
      exact hpercent

/-- The leading groups of the notations that end in an IPv4 address. -/
theorem leading_groups {g0 g1 g2 g3 g4 g5 k : Nat} (h1 : g1 < 65536) (h2 : g2 < 65536)
    (h3 : g3 < 65536) (h4 : g4 < 65536) (h5 : g5 < 65536)
    (hk : k = ofBase 65536 [g0, g1, g2, g3, g4, g5]) :
    (k = 0xffff ↔ (g0 = 0 ∧ g1 = 0 ∧ g2 = 0 ∧ g3 = 0 ∧ g4 = 0) ∧ g5 = 0xffff) ∧
    (k = 0 ↔ g0 = 0 ∧ g1 = 0 ∧ g2 = 0 ∧ g3 = 0 ∧ g4 = 0 ∧ g5 = 0) ∧
    (k = 0x64ff9b * 2 ^ 64 ↔ (g0 = 0x64 ∧ g1 = 0xff9b) ∧ g2 = 0 ∧ g3 = 0 ∧ g4 = 0 ∧ g5 = 0) := by
  have hrest : ofBase 65536 [g2, g3, g4, g5] =
      (g2 * 65536 + g3) * 2 ^ 32 + (g4 * 65536 + g5) := by
    simp only [ofBase, List.foldl_cons, List.foldl_nil]
    omega
  have hsplit : k = (g0 * 65536 + g1) * 2 ^ 64 + ofBase 65536 [g2, g3, g4, g5] := by
    rw [hk]
    simp only [ofBase, List.foldl_cons, List.foldl_nil]
    omega
  have hzero : ofBase 65536 [g2, g3, g4, g5] = 0 ↔ g2 = 0 ∧ g3 = 0 ∧ g4 = 0 ∧ g5 = 0 := by
    rw [hrest]
    omega
  have hmapped : ofBase 65536 [g2, g3, g4, g5] = 0xffff ↔
      g2 = 0 ∧ g3 = 0 ∧ g4 = 0 ∧ g5 = 0xffff := by
    rw [hrest]
    omega
  have hlt : ofBase 65536 [g2, g3, g4, g5] < 2 ^ 64 := by
    rw [hrest]
    omega
  generalize ofBase 65536 [g2, g3, g4, g5] = rest at hsplit hzero hmapped hlt
  obtain ⟨high, hhigh⟩ : ∃ high, high = g0 * 65536 + g1 := ⟨_, rfl⟩
  rw [← hhigh] at hsplit
  have hhigh : (high = 0 ↔ g0 = 0 ∧ g1 = 0) ∧ (high = 0x64ff9b ↔ g0 = 0x64 ∧ g1 = 0xff9b) :=
    ⟨by omega, by omega⟩
  refine ⟨?_, ?_, ?_⟩
  · rw [show k = 0xffff ↔ high = 0 ∧ rest = 0xffff by omega, hhigh.1, hmapped]
    simp only [and_assoc]
  · rw [show k = 0 ↔ high = 0 ∧ rest = 0 by omega, hhigh.1, hzero]
    simp only [and_assoc]
  · rw [show k = 0x64ff9b * 2 ^ 64 ↔ high = 0x64ff9b ∧ rest = 0 by omega, hhigh.2, hzero]

/-- The guard reads an IPv4 address out of exactly the literals that end in one. -/
theorem embeddedIpv4_spec {gs : List Nat} (hlen : gs.length = 8) (hlt : ∀ g ∈ gs, g < 65536) :
    (EmbedsLast (ofBase 65536 gs) → ∃ a b c d, a ≤ 255 ∧ b ≤ 255 ∧ c ≤ 255 ∧ d ≤ 255 ∧
      embeddedIpv4 gs = some (quadText a b c d) ∧
      ofBase 256 [a, b, c, d] = ofBase 65536 gs % 2 ^ 32) ∧
    (¬ EmbedsLast (ofBase 65536 gs) → embeddedIpv4 gs = none) := by
  match gs, hlen with
  | [g0, g1, g2, g3, g4, g5, g6, g7], _ =>
    simp only [List.mem_cons, List.not_mem_nil, or_false, forall_eq_or_imp, forall_eq] at hlt
    obtain ⟨-, h1, h2, h3, h4, h5, h6, h7⟩ := hlt
    have hvalue : ofBase 65536 [g0, g1, g2, g3, g4, g5, g6, g7] =
        ofBase 65536 [g0, g1, g2, g3, g4, g5] * 2 ^ 32 + (g6 * 65536 + g7) := by
      simp only [ofBase, List.foldl_cons, List.foldl_nil]
      omega
    generalize hk : ofBase 65536 [g0, g1, g2, g3, g4, g5] = k at hvalue
    obtain ⟨hmapped, hcompatible, hnat64⟩ := leading_groups h1 h2 h3 h4 h5 hk.symm
    rw [hvalue]
    unfold EmbedsLast
    rw [show (k * 2 ^ 32 + (g6 * 65536 + g7)) / 2 ^ 32 = k by omega,
      show (k * 2 ^ 32 + (g6 * 65536 + g7)) % 2 ^ 32 = g6 * 65536 + g7 by omega, hmapped,
      hcompatible, hnat64]
    unfold embeddedIpv4
    simp only [List.getD_cons_zero, List.getD_cons_succ, List.all_cons, List.all_nil, Bool.and_true,
      Bool.and_eq_true, decide_eq_true_eq]
    constructor
    · intro hends
      refine ⟨g6 / 256, g6 % 256, g7 / 256, g7 % 256, by omega, by omega, by omega, by omega, ?_, ?_⟩
      · split
        · rfl
        · rename_i hnotMapped
          split
          · rfl
          · rename_i hnotCompatible
            rw [if_pos]
            exact (hends.resolve_left hnotMapped).resolve_left hnotCompatible
      · simp only [ofBase, List.foldl_cons, List.foldl_nil]
        omega
    · intro hends
      rw [if_neg fun h => hends (.inl h), if_neg fun h => hends (.inr (.inl h)),
        if_neg fun h => hends (.inr (.inr h))]

/-- The top bits of an IPv6 address are those of its first groups. -/
theorem leading_bits {gs : List Nat} (hlen : gs.length = 8) (hlt : ∀ g ∈ gs, g < 65536) :
    ofBase 65536 gs / 2 ^ 112 = gs.getD 0 0 ∧
      ofBase 65536 gs / 2 ^ 96 = gs.getD 0 0 * 65536 + gs.getD 1 0 ∧
      ofBase 65536 gs / 2 ^ 125 = gs.getD 0 0 / 0x2000 ∧ gs.getD 0 0 < 65536 ∧
      gs.getD 1 0 < 65536 := by
  match gs, hlen with
  | [g0, g1, g2, g3, g4, g5, g6, g7], _ =>
    simp only [List.mem_cons, List.not_mem_nil, or_false, forall_eq_or_imp, forall_eq] at hlt
    obtain ⟨h0, h1, h2, h3, h4, h5, h6, h7⟩ := hlt
    have hvalue : ofBase 65536 [g0, g1, g2, g3, g4, g5, g6, g7] =
        (g0 * 65536 + g1) * 2 ^ 96 + ofBase 65536 [g2, g3, g4, g5, g6, g7] := by
      simp only [ofBase, List.foldl_cons, List.foldl_nil]
      omega
    have hrest : ofBase 65536 [g2, g3, g4, g5, g6, g7] < 2 ^ 96 := by
      simp only [ofBase, List.foldl_cons, List.foldl_nil]
      omega
    simp only [List.getD_cons_zero, List.getD_cons_succ]
    rw [hvalue]
    generalize ofBase 65536 [g2, g3, g4, g5, g6, g7] = rest at hrest
    exact ⟨by omega, by omega, by omega, h0, h1⟩

theorem stripBrackets_lower {h : Text} (hchars : ∀ c ∈ h, IsLiteralChar c) :
    stripBrackets (lower h) = lower h := by
  have hopen : '[' ∉ lower h := fun hmem =>
    (literalChar_spec (hchars _ ((mem_lower (by decide) (by decide)).mp hmem))).2.1 rfl
  have hclose : ']' ∉ lower h := fun hmem =>
    (literalChar_spec (hchars _ ((mem_lower (by decide) (by decide)).mp hmem))).2.2 rfl
  have hhead : (lower h).head? ≠ some '[' := fun hhead => hopen (List.mem_of_mem_head? hhead)
  have hlast : (lower h).getLast? ≠ some ']' := fun hlast => hclose (List.mem_of_getLast? hlast)
  simp only [stripBrackets, if_neg hhead, if_neg hlast]

theorem trim_literal {h : Text} (hchars : ∀ c ∈ h, IsLiteralChar c) : trim h = h :=
  trim_eq_self fun c hc => (literalChar_spec (hchars c hc)).1

/-- An IPv6 host that is let through is public, or ends in an IPv4 address that is. -/
theorem unblocked_v6 (hNumber : ReadsDigits Number) {h : Text} {x : Address}
    (hx : denotesV6 h = some x) (hblocked : isBlockedDccHost Number h = false) :
    PublicOrEmbeds x := by
  obtain ⟨hcolon, hchars⟩ := denotesV6_spec hx
  have hcolon' : ':' ∈ lower h := (mem_lower (by decide) (by decide)).mpr hcolon
  have hne : lower h ≠ [] := List.ne_nil_of_mem hcolon'
  unfold isBlockedDccHost isBlockedIpLiteral at hblocked
  rw [trim_literal hchars] at hblocked
  simp only [stripBrackets_lower hchars, if_neg hne, not_true_eq_false, hcolon', if_false] at hblocked
  split at hblocked
  · cases hblocked
  · rename_i gs hparse
    have hpercent : '%' ∉ h := fun hmem =>
      percent_not_mem hparse ((mem_lower (by decide) (by decide)).mpr hmem)
    obtain ⟨literal, hzone, hx⟩ := Option.bind_eq_some_iff.mp hx
    rw [dropZone, splitFirst, if_neg hpercent] at hzone
    obtain rfl := Option.some.inj hzone
    obtain ⟨ws, hread, hx⟩ := Option.bind_eq_some_iff.mp hx
    obtain rfl := Option.some.inj hx
    rw [← readV6_lower] at hread
    obtain ⟨rfl, hlen, hlt⟩ := parseIpv6_spec hNumber hparse hread
    obtain ⟨hembedded, hnone⟩ := embeddedIpv4_spec hlen hlt
    obtain ⟨htop, htwo, hthree, hfirst, hsecond⟩ := leading_bits hlen hlt
    by_cases hends : EmbedsLast (ofBase 65536 ws)
    · obtain ⟨a, b, c, d, ha, hb, hc, hd, hquad, hvalue⟩ := hembedded hends
      rw [hquad] at hblocked
      have hpublic := not_internal_of_unblocked hNumber ha hb hc hd hblocked
      rw [hvalue] at hpublic
      refine ⟨fun m hm => ?_, .inl hends⟩
      unfold EmbedsLast at hends
      cases hm with
      | last => exact hpublic
      | sixToFour h => omega
      | teredo h => omega
    · rw [hnone hends] at hblocked
      dsimp only at hblocked
      split at hblocked
      · cases hblocked
      · rename_i hnotSix
        split at hblocked
        · cases hblocked
        · rename_i hnotTeredo
          have hglobal : (ws.getD 0 0) / 0x2000 % 8 = 1 := not_not.mp (of_decide_eq_false hblocked)
          refine ⟨fun m hm => ?_, .inr ?_⟩
          · cases hm with
            | last h => exact absurd h hends
            | sixToFour h => exact absurd (htop.symm.trans h) hnotSix
            | teredo h => exact absurd ⟨by omega, by omega⟩ hnotTeredo
          · unfold GlobalUnicast
            omega

theorem digits_facts {s : Text} (h : ∀ c ∈ s, c = '.' ∨ c.isDigit = true) :
    ':' ∉ s ∧ ∀ c ∈ s, IsLiteralChar c :=
  ⟨fun hmem => (h ':' hmem).elim (fun h => by cases h) (fun h => by cases h),
    fun c hc => literalChar_of_quad (h c hc)⟩

theorem quadText_facts (a b c d : Nat) :
    ':' ∉ quadText a b c d ∧ ∀ x ∈ quadText a b c d, IsLiteralChar x :=
  digits_facts fun _ h => mem_quadText h

/-- A dotted quad as a host: it is its own address, and let through only when public. -/
theorem judged_quad (hNumber : ReadsDigits Number) {a b c d : Nat} (ha : a ≤ 255) (hb : b ≤ 255)
    (hc : c ≤ 255) (hd : d ≤ 255) : isIP (quadText a b c d) = 4 ∧
      denotes (quadText a b c d) = some (.v4 (ofBase 256 [a, b, c, d])) ∧
      (isBlockedDccHost Number (quadText a b c d) = false →
        ¬ Internal (ofBase 256 [a, b, c, d])) := by
  have hread : readQuad (quadText a b c d) = some [a, b, c, d] :=
    readQuad_eq_some.mpr ⟨a, b, c, d, ha, hb, hc, hd, rfl, rfl⟩
  refine ⟨?_, ?_, fun hblocked => ?_⟩
  · unfold isIP isIPv4
    rw [hread]
    rfl
  · unfold denotes
    rw [hread]
  · obtain ⟨hcolon, hchars⟩ := quadText_facts a b c d
    have hlower : lower (quadText a b c d) = quadText a b c d := by
      refine (List.map_congr_left fun x hx => ?_).trans (List.map_id _)
      rcases mem_quadText hx with rfl | hdigit
      · decide
      · exact (toLower_digits x).2.2.2 hdigit
    have hne : quadText a b c d ≠ [] := by
      unfold quadText
      simp
    have hstrip : stripBrackets (quadText a b c d) = quadText a b c d := by
      have := stripBrackets_lower hchars
      rwa [hlower] at this
    unfold isBlockedDccHost isBlockedIpLiteral at hblocked
    rw [trim_literal hchars] at hblocked
    simp only [hlower, hstrip, if_neg hne, if_pos hcolon] at hblocked
    exact not_internal_of_unblocked hNumber ha hb hc hd hblocked

theorem judged_v6 (hNumber : ReadsDigits Number) {h : Text} (hv6 : isIPv6 h = true) :
    ∃ x, isIP h = 6 ∧ denotesV6 h = some x ∧ denotes h = some x ∧
      (isBlockedDccHost Number h = false → PublicOrEmbeds x) := by
  obtain ⟨x, hx⟩ := Option.isSome_iff_exists.mp hv6
  have hquad : readQuad h = none := by
    cases hread : readQuad h with
    | none => rfl
    | some octets =>
      exact absurd (denotesV6_spec hx).1 (digits_facts (readQuad_chars hread)).1
  refine ⟨x, ?_, hx, ?_, unblocked_v6 hNumber hx⟩
  · unfold isIP isIPv4
    rw [hquad, hv6]
    rfl
  · unfold denotes
    rw [hquad]
    exact hx

/-- A host that is a literal of what the field means is judged as it is dialled. -/
theorem judged_of_denotes {lookup : Text → Option Address} {addr host : Text} {x : Address}
    (hip : isIP host = 4 ∨ isIP host = 6) (hfield : fieldAddress addr = some x)
    (hdenotes : denotes host = some x)
    (hguard : isBlockedDccHost Number host = false → PublicOrEmbeds x) :
    Judged Number lookup PublicOrEmbeds addr host := by
  refine ⟨hip, x, hfield, hdenotes, ?_, hguard⟩
  unfold dialled
  rw [if_neg (by omega)]
  exact hdenotes

theorem packedQuad_value {n : Nat} (h : n ≤ 0xffffffff) :
    ofBase 256 [n / 2 ^ 24 % 256, n / 2 ^ 16 % 256, n / 2 ^ 8 % 256, n % 256] = n := by
  simp only [ofBase, List.foldl_cons, List.foldl_nil]
  omega

/-- What the decoder makes of a number. -/
theorem decode_digits (hNumber : ReadsDigits Number) {addr s host : Text} (hs : trim addr = s)
    (hne : s ≠ []) (hdigits : s.all Char.isDigit = true)
    (h : decodeDccAddress Number addr = some host) :
    Nat.ofDigitChars 10 s 0 ≤ 0xffffffff ∧ host = packedQuad (Nat.ofDigitChars 10 s 0) ∧
      fieldAddress addr = some (.v4 (Nat.ofDigitChars 10 s 0)) := by
  have hall := List.all_eq_true.mp hdigits
  obtain ⟨hcolon, -⟩ := digits_facts fun c hc => .inr (hall c hc)
  have hquad : isDottedQuad s = false := by
    have hdot : '.' ∉ s := fun hmem => absurd (hall '.' hmem) (by decide)
    unfold isDottedQuad
    rw [List.splitOn_eq_singleton hdot]
    rfl
  unfold decodeDccAddress at h
  rw [hs] at h
  simp only [if_neg hne, if_neg hcolon, hquad, hdigits, if_true, Bool.false_eq_true,
    if_false] at h
  have hrange : Nat.ofDigitChars 10 s 0 ≤ 0xffffffff ∧
      host = packedQuad (Nat.ofDigitChars 10 s 0) := by
    by_cases hexact : Nat.ofDigitChars 10 s 0 ≤ 2 ^ 53
    · rw [hNumber.exact s hne hdigits hexact] at h
      dsimp only at h
      split at h
      · cases h
      · rename_i hrange
        obtain rfl := Option.some.inj h
        exact ⟨by omega, rfl⟩
    · split at h
      · cases h
      · rename_i n hn
        have := hNumber.large s hne hdigits (by omega) n hn
        rw [if_pos (by omega)] at h
        cases h
  refine ⟨hrange.1, hrange.2, ?_⟩
  unfold fieldAddress
  rw [hs]
  simp only [if_neg hcolon, hquad, Bool.false_eq_true, if_false]
  exact if_pos ⟨hne, hdigits, by omega⟩

/-- Every host the decoder returns is judged as it is dialled, unless it has a leading zero. -/
theorem judged_decoded (hNumber : ReadsDigits Number) (lookup : Text → Option Address)
    {addr host : Text} (h : decodeDccAddress Number addr = some host)
    (hzero : ¬ HasLeadingZero addr) : Judged Number lookup PublicOrEmbeds addr host := by
  by_cases hne : trim addr = []
  · unfold decodeDccAddress at h
    rw [hne] at h
    cases h
  by_cases hcolon : ':' ∈ trim addr
  · unfold decodeDccAddress at h
    simp only [if_neg hne, if_pos hcolon] at h
    split at h
    · rename_i hv6
      obtain rfl := Option.some.inj h
      obtain ⟨x, hip, hdenotesV6, hdenotes, hguard⟩ := judged_v6 hNumber hv6
      refine judged_of_denotes (.inr hip) ?_ hdenotes hguard
      unfold fieldAddress
      simp only [if_pos hcolon]
      exact hdenotesV6
    · cases h
  by_cases hquad : isDottedQuad (trim addr) = true
  · unfold decodeDccAddress at h
    simp only [if_neg hne, if_neg hcolon, if_pos hquad] at h
    split at h
    · rename_i hbytes
      obtain rfl := Option.some.inj h
      obtain ⟨a, b, c, d, hsplit, hpieces⟩ := quad_pieces hquad
      have hle (o : Text) (ho : o ∈ [a, b, c, d]) : Nat.ofDigitChars 10 o 0 ≤ 255 := by
        rw [hsplit] at hbytes
        have hbyte := List.all_eq_true.mp hbytes o ho
        rw [isByte, number_octet hNumber (hpieces o ho)] at hbyte
        have := of_decide_eq_true hbyte
        omega
      have hread (o : Text) (ho : o ∈ [a, b, c, d]) :
          readOctet o = some (Nat.ofDigitChars 10 o 0) :=
        readOctet_of_piece (hpieces o ho) (fun hlead => hzero ⟨hquad, o, hsplit ▸ ho, hlead⟩)
          (hle o ho)
      have hvalue : fieldAddress addr = some (.v4 (ofBase 256 [Nat.ofDigitChars 10 a 0,
          Nat.ofDigitChars 10 b 0, Nat.ofDigitChars 10 c 0, Nat.ofDigitChars 10 d 0])) := by
        unfold fieldAddress
        simp only [if_neg hcolon, if_pos hquad, hsplit, List.map_cons, List.map_nil]
        refine if_pos (List.all_eq_true.mpr fun n hn => ?_)
        simp only [List.mem_cons, List.not_mem_nil, or_false] at hn
        rcases hn with rfl | rfl | rfl | rfl
        · simpa using hle a (by simp)
        · simpa using hle b (by simp)
        · simpa using hle c (by simp)
        · simpa using hle d (by simp)
      obtain ⟨ha, ha'⟩ := readOctet_eq_some.mp (hread a (by simp))
      obtain ⟨hb, hb'⟩ := readOctet_eq_some.mp (hread b (by simp))
      obtain ⟨hc, hc'⟩ := readOctet_eq_some.mp (hread c (by simp))
      obtain ⟨hd, hd'⟩ := readOctet_eq_some.mp (hread d (by simp))
      have htext : trim addr = quadText (Nat.ofDigitChars 10 a 0) (Nat.ofDigitChars 10 b 0)
          (Nat.ofDigitChars 10 c 0) (Nat.ofDigitChars 10 d 0) := by
        rw [eq_of_splitOn hsplit]
        unfold quadText
        rw [← ha', ← hb', ← hc', ← hd']
      obtain ⟨hip, hdenotes, hguard⟩ := judged_quad hNumber ha hb hc hd
      rw [htext]
      exact judged_of_denotes (.inl hip) hvalue hdenotes hguard
    · cases h
  by_cases hdigits : (trim addr).all Char.isDigit = true
  · obtain ⟨hle, rfl, hfield⟩ := decode_digits hNumber rfl hne hdigits h
    obtain ⟨hip, hdenotes, hguard⟩ := judged_quad hNumber
      (a := Nat.ofDigitChars 10 (trim addr) 0 / 2 ^ 24 % 256)
      (b := Nat.ofDigitChars 10 (trim addr) 0 / 2 ^ 16 % 256)
      (c := Nat.ofDigitChars 10 (trim addr) 0 / 2 ^ 8 % 256)
      (d := Nat.ofDigitChars 10 (trim addr) 0 % 256) (by omega) (by omega) (by omega) (by omega)
    rw [packedQuad_value hle] at hdenotes hguard
    exact judged_of_denotes (.inl hip) hfield hdenotes hguard
  · unfold decodeDccAddress at h
    simp only [if_neg hne, if_neg hcolon, if_neg hquad, if_neg hdigits] at h
    cases h

/-- A quad with a leading zero is no literal, so the dialler looks it up. -/
theorem leading_zero_is_no_literal {addr : Text} (hzero : HasLeadingZero addr) :
    isIP (trim addr) = 0 := by
  obtain ⟨hquad, o, ho, hhead, hlen⟩ := hzero
  obtain ⟨a, b, c, d, hsplit, hpieces⟩ := quad_pieces hquad
  have hv4 : readQuad (trim addr) = none := by
    cases hread : readQuad (trim addr) with
    | none => rfl
    | some octets =>
      obtain ⟨a', b', c', d', ha, hb, hc, hd, -, htext⟩ := readQuad_eq_some.mp hread
      rw [htext, splitOn_quadText] at ho
      have hlead (n : Nat) (hn : n ≤ 255) (h : o = decimal n) : False := by
        have hoctet : readOctet o = some n := readOctet_eq_some.mpr ⟨hn, h⟩
        unfold readOctet at hoctet
        split at hoctet
        · rename_i hok
          exact hlen (hok.2.2.2.1 hhead)
        · cases hoctet
      simp only [List.mem_cons, List.not_mem_nil, or_false] at ho
      rcases ho with ho | ho | ho | ho
      · exact (hlead a' ha ho).elim
      · exact (hlead b' hb ho).elim
      · exact (hlead c' hc ho).elim
      · exact (hlead d' hd ho).elim
  have hv6 : isIPv6 (trim addr) = false := by
    refine Bool.eq_false_iff.mpr fun hv6 => ?_
    obtain ⟨x, hx⟩ := Option.isSome_iff_exists.mp hv6
    rcases mem_splitOn '.' (denotesV6_spec hx).1 with hdot | ⟨p, hp, hcolon⟩
    · cases hdot
    · rw [hsplit] at hp
      exact absurd (List.all_eq_true.mp (hpieces p hp).2.2 ':' hcolon) (by decide)
  unfold isIP isIPv4
  rw [hv4, hv6]
  rfl

theorem encode_quad (hNumber : ReadsDigits Number) {a b c d : Nat} (ha : a ≤ 255) (hb : b ≤ 255)
    (hc : c ≤ 255) (hd : d ≤ 255) : encodeDccAddress Number (quadText a b c d) =
      some (decimal (a * 2 ^ 24 + b * 2 ^ 16 + c * 2 ^ 8 + d)) := by
  obtain ⟨hcolon, hchars⟩ := quadText_facts a b c d
  unfold encodeDccAddress
  simp only [trim_literal hchars, if_neg hcolon, isDottedQuad_quadText ha hb hc hd, if_true,
    splitOn_quadText, List.map_cons, List.map_nil, number_decimal hNumber (show a ≤ 2 ^ 53 by omega),
    number_decimal hNumber (show b ≤ 2 ^ 53 by omega),
    number_decimal hNumber (show c ≤ 2 ^ 53 by omega),
    number_decimal hNumber (show d ≤ 2 ^ 53 by omega)]
  rw [if_neg (by omega)]
  congr 2

theorem decode_decimal (hNumber : ReadsDigits Number) {n : Nat} (h : n ≤ 0xffffffff) :
    decodeDccAddress Number (decimal n) = some (packedQuad n) := by
  obtain ⟨hcolon, hchars⟩ := digits_facts fun c hc => .inr (isDigit_decimal (n := n) (c := c) hc)
  have hdot : '.' ∉ decimal n := dot_not_mem_decimal n
  have hquad : isDottedQuad (decimal n) = false := by
    unfold isDottedQuad
    rw [List.splitOn_eq_singleton hdot]
    rfl
  have hdigits : (decimal n).all Char.isDigit = true :=
    List.all_eq_true.mpr fun _ hc => isDigit_decimal hc
  unfold decodeDccAddress
  simp only [trim_literal hchars, if_neg (decimal_ne_nil n), if_neg hcolon, hquad, hdigits, if_true,
    Bool.false_eq_true, if_false, number_decimal hNumber (show n ≤ 2 ^ 53 by omega)]
  exact if_neg (by omega)

/-- A literal is encoded to a field that decodes to it, in the characters of a literal. -/
theorem encode_literal (hNumber : ReadsDigits Number) {host : Text} (hip : isIP host ≠ 0) :
    ∃ addr, encodeDccAddress Number host = some addr ∧
      decodeDccAddress Number addr = some host ∧ addr ≠ [] ∧ ∀ c ∈ addr, IsLiteralChar c := by
  unfold isIP at hip
  split at hip
  · rename_i hv4
    obtain ⟨octets, hread⟩ := Option.isSome_iff_exists.mp hv4
    obtain ⟨a, b, c, d, ha, hb, hc, hd, -, rfl⟩ := readQuad_eq_some.mp hread
    refine ⟨_, encode_quad hNumber ha hb hc hd, ?_, decimal_ne_nil _, fun c hc => ?_⟩
    · rw [decode_decimal hNumber (by omega)]
      unfold packedQuad
      congr 2 <;> omega
    · exact literalChar_of_quad (.inr (isDigit_decimal hc))
  · split at hip
    · rename_i hv6
      obtain ⟨x, hx⟩ := Option.isSome_iff_exists.mp hv6
      obtain ⟨hcolon, hchars⟩ := denotesV6_spec hx
      have htrim := trim_literal hchars
      refine ⟨host, ?_, ?_, List.ne_nil_of_mem hcolon, hchars⟩
      · unfold encodeDccAddress
        simp only [htrim, if_pos hcolon, hv6, if_true]
      · unfold decodeDccAddress
        simp only [htrim, if_neg (List.ne_nil_of_mem hcolon), if_pos hcolon, hv6, if_true]
    · exact absurd rfl hip

/-- A literal is encoded to a field that decodes to it. -/
theorem judged_encoded (hNumber : ReadsDigits Number) {host : Text} (hip : isIP host ≠ 0) :
    ∃ addr, encodeDccAddress Number host = some addr ∧
      decodeDccAddress Number addr = some host := by
  obtain ⟨addr, hencode, hdecode, -⟩ := encode_literal hNumber hip
  exact ⟨addr, hencode, hdecode⟩

/-- The address judged is the address dialled, for every field but a dotted quad with a
leading zero. -/
theorem judged_as_dialled (hNumber : ReadsDigits Number) (lookup : Text → Option Address) :
    JudgedAsDialled Number lookup PublicOrEmbeds HasLeadingZero where
  decoded _ _ h hzero := judged_decoded hNumber lookup h hzero
  encoded _ hip := judged_encoded hNumber hip

end Quads

/-- `Number` of decimal digits only. -/
def digitsNumber (s : Text) : Option Int :=
  if s ≠ [] ∧ s.all Char.isDigit then some (Nat.ofDigitChars 10 s 0 : Int) else none

theorem digitsNumber_reads : ReadsDigits digitsNumber where
  exact s hne hdigits _ := if_pos ⟨hne, hdigits⟩
  large s hne hdigits hlarge n hn := by
    rw [digitsNumber, if_pos ⟨hne, hdigits⟩] at hn
    obtain rfl := Option.some.inj hn
    omega

/-- A resolver of dotted quads. -/
def octalLookup (host : Text) : Option Address :=
  some (.v4 (ofBase 256 ((host.splitOn '.').map octalOctet)))

theorem judged_as_dialled_digits :
    JudgedAsDialled digitsNumber octalLookup PublicOrEmbeds HasLeadingZero :=
  judged_as_dialled digitsNumber_reads octalLookup

/-- A public IPv4 address in IPv6 notation is let through, and is not global unicast. -/
theorem mapped_not_unicast : ReadsDigits digitsNumber ∧ ReadsOctal octalLookup ∧
    ¬ JudgedAsDialled digitsNumber octalLookup Public fun _ => False := by
  refine ⟨digitsNumber_reads, fun _ _ _ => rfl, fun h => ?_⟩
  obtain ⟨-, x, hfield, -, -, hpublic⟩ :=
    h.decoded "::ffff:8.8.8.8".toList "::ffff:8.8.8.8".toList (by decide +kernel) id
  have hx : x = .v6 (0xffff * 2 ^ 32 + 0x08080808) := by
    refine Option.some.inj (hfield.symm.trans ?_)
    decide +kernel
  subst hx
  have hglobal := (hpublic (by decide +kernel)).2
  revert hglobal
  unfold GlobalUnicast
  decide

/-- A quad with a leading zero is judged as one address and dialled as another. -/
example : decodeDccAddress digitsNumber "012.0.0.1".toList = some "012.0.0.1".toList ∧
    isBlockedDccHost digitsNumber "012.0.0.1".toList = false ∧
    dialled octalLookup "012.0.0.1".toList = some (.v4 (ofBase 256 [10, 0, 0, 1])) := by
  decide +kernel

end Lurker.Dcc
