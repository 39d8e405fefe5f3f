import Mathlib
import RailsLookup.Proofs.Text.Case
import RailsLookup.Proofs.Text.Decoding
import RailsLookup.Proofs.Text.Pieces
import RailsLookup.Proofs.Url.Percent
import RailsLookup.Url.Host

/-! # Hosts that are read again

A file may lie on no host or on `localhost`. If the text of a host is read again, it is one of
these just if it was before.
-/

namespace RailsLookup

theorem Digits.exists_of_mem_toDigits {base : Nat} (hb : 1 < base) {c : Char} {n : Nat}
    (h : c ∈ Nat.toDigits base n) : ∃ d < base, c = Nat.digitChar d := by
  induction n using Nat.strongRecOn with
  | ind n ih =>
    rw [Nat.toDigits_eq_if hb] at h
    split at h
    · next hn => exact ⟨n, hn, List.mem_singleton.mp h⟩
    · next hn =>
      rcases List.mem_append.mp h with h | h
      · exact ih (n / base) (Nat.div_lt_self (by omega) hb) h
      · exact ⟨n % base, Nat.mod_lt n (by omega), List.mem_singleton.mp h⟩

namespace Punycode

variable {c : Char} {t : Text}

theorem digit_mem (n : Nat) : digit n ∈ digits := by
  unfold digit
  rw [List.getD_eq_getElem?_getD]
  cases h : digits[n]? with
  | none => decide
  | some c => exact List.mem_of_getElem? h

theorem mem_number {bias k q : Nat} (h : c ∈ number bias k q) : c ∈ digits := by
  fun_induction number bias k q with
  | case1 k q t hq =>
    rw [List.mem_singleton.mp h]
    exact digit_mem q
  | case2 k q t hq ih =>
    rcases List.mem_cons.mp h with rfl | h
    · exact digit_mem _
    · exact ih h

theorem Progress.mem_pass {basic n : Nat} {p : Progress} {d : Char}
    (h : c ∈ (p.pass basic n d).output) : c ∈ p.output ∨ c ∈ digits := by
  unfold pass at h
  split at h
  · exact .inl h
  · split at h
    · rcases List.mem_append.mp h with h | h
      · exact .inl h
      · exact .inr (mem_number h)
    · exact .inl h

theorem Progress.mem_foldl {α : Type} {step : Progress → α → Progress}
    (hstep : ∀ p x, c ∈ (step p x).output → c ∈ p.output ∨ c ∈ digits) (xs : List α) (p : Progress)
    (h : c ∈ (xs.foldl step p).output) : c ∈ p.output ∨ c ∈ digits := by
  induction xs generalizing p with
  | nil => exact .inl h
  | cons x xs ih =>
    rcases ih _ h with h | h
    · exact hstep p x h
    · exact .inr h

theorem Progress.mem_place {basic n : Nat} {p : Progress} (h : c ∈ (p.place t basic n).output) :
    c ∈ p.output ∨ c ∈ digits :=
  mem_foldl (fun _ _ => mem_pass) t { p with delta := p.delta + (n - p.next) * (p.count + 1) } h

theorem mem_encode (h : c ∈ encode t) : c ∈ t ∨ c ∈ '-' :: digits := by
  simp only [encode, List.mem_append] at h
  rcases h with (h | h) | h
  · exact .inl (List.mem_filter.mp h).1
  · split at h
    · cases h
    · exact .inr (List.mem_cons.mpr (.inl (List.mem_singleton.mp h)))
  · rcases Progress.mem_foldl (fun _ _ => Progress.mem_place) _ _ h with h | h
    · cases h
    · exact .inr (List.mem_cons_of_mem _ h)

theorem mem_label (h : c ∈ label t) : c ∈ t ∨ c ∈ '-' :: digits := by
  unfold label at h
  split at h
  · exact .inl h
  · rcases List.mem_append.mp h with h | h
    · have hmark : ∀ d ∈ "xn--".toList, d ∈ '-' :: digits := Text.forall_of_all (by decide)
      exact .inr (hmark c h)
    · exact mem_encode h

/-- Writing a domain in ASCII brings in small letters, digits and hyphens only. -/
theorem mem_domain (h : c ∈ domain t) : c ∈ t ∨ c ∈ '.' :: '-' :: digits := by
  rcases Text.mem_intercalate h with h | ⟨l, hl, hc⟩
  · exact .inr (List.mem_cons.mpr (.inl (List.mem_singleton.mp h)))
  · obtain ⟨w, hw, rfl⟩ := List.mem_map.mp hl
    rcases mem_label hc with hc | hc
    · exact .inl ((Text.mem_splitOn hw).1 hc)
    · exact .inr (List.mem_cons_of_mem _ hc)

theorem eq_of_label_eq (h : label t = "localhost".toList) : t = "localhost".toList := by
  unfold label at h
  split at h
  · exact h
  · cases h

theorem domain_eq_localhost_iff : domain t = "localhost".toList ↔ t = "localhost".toList := by
  constructor
  · intro h
    obtain ⟨w, ws, hs⟩ := List.exists_cons_of_ne_nil (List.splitOn_ne_nil '.' t)
    rw [domain, hs, List.map_cons, intercalate_cons_eq] at h
    cases ws with
    | nil =>
      rw [List.map_nil, List.flatMap_nil, List.append_nil] at h
      have ht : ['.'].intercalate (t.splitOn '.') = t := List.intercalate_splitOn '.'
      rw [← ht, hs, eq_of_label_eq h]
      rfl
    | cons w' ws =>
      have hdot : '.' ∈ "localhost".toList := by
        rw [← h]
        simp
      exact absurd hdot (by decide)
  · rintro rfl
    decide

end Punycode

namespace Host

variable {t x y : Text}

/-- Whether a file on the host may be named by its path alone. -/
def isLocal (x : Text) : Bool := x.isEmpty || x = "localhost".toList

theorem isLocal_eq_false_iff : isLocal x = false ↔ x ≠ [] ∧ x ≠ "localhost".toList := by
  rw [isLocal, Bool.or_eq_false_iff, decide_eq_false_iff_not, ← Bool.not_eq_true, List.isEmpty_iff]

theorem isLocal_of_head (h : x.head? = some '[') : isLocal x = false := by
  rw [isLocal_eq_false_iff]
  constructor
  · rintro rfl
    cases h
  · rintro rfl
    cases h

theorem mem_ipv6Text {c : Char} {ps : List Nat} (h : c ∈ ipv6Text ps) :
    c ∈ ":0123456789abcdef".toList := by
  have hdigit : ∀ d < 16, Nat.digitChar d ∈ ":0123456789abcdef".toList := by decide
  have hwritten {ps : List Nat} (h : c ∈ [':'].intercalate (ps.map Digits.hexadecimal)) :
      c ∈ ":0123456789abcdef".toList := by
    rcases Text.mem_intercalate h with h | ⟨l, hl, hc⟩
    · exact List.mem_cons.mpr (.inl (List.mem_singleton.mp h))
    · obtain ⟨n, _, rfl⟩ := List.mem_map.mp hl
      obtain ⟨d, hd, rfl⟩ := Digits.exists_of_mem_toDigits (by decide) hc
      exact hdigit d hd
  unfold ipv6Text at h
  split at h
  · exact hwritten h
  · simp only [List.mem_append] at h
    rcases h with (h | h) | h
    · exact hwritten h
    · rw [show c = ':' by simpa using h]
      decide
    · exact hwritten h

theorem bracketed?_eq_some (h : bracketed? t = some x) :
    x.head? = some '[' ∧ ∀ c ∈ x, c ∈ "[]:0123456789abcdef".toList := by
  simp only [bracketed?, Option.bind_eq_bind, Option.bind_eq_some_iff, Option.pure_def,
    Option.some.injEq] at h
  obtain ⟨_, _, ps, _, rfl⟩ := h
  refine ⟨rfl, fun c hc => ?_⟩
  simp only [List.cons_append, List.mem_cons, List.mem_append, List.not_mem_nil, or_false] at hc
  rcases hc with rfl | hc | rfl
  · decide
  · exact List.mem_cons_of_mem _ (List.mem_cons_of_mem _ (mem_ipv6Text hc))
  · decide

theorem mem_ipv4Text {c : Char} {n : Nat} (h : c ∈ ipv4Text n) : c ∈ ".0123456789".toList := by
  have hdigit : ∀ d < 10, Nat.digitChar d ∈ ".0123456789".toList := by decide
  rcases Text.mem_intercalate h with h | ⟨l, hl, hc⟩
  · exact List.mem_cons.mpr (.inl (List.mem_singleton.mp h))
  · obtain ⟨n, _, rfl⟩ := List.mem_map.mp hl
    obtain ⟨d, hd, rfl⟩ := Digits.exists_of_mem_toDigits (by decide) hc
    exact hdigit d hd

theorem ipv4Text_ne_nil (n : Nat) : ipv4Text n ≠ [] := by
  simp [ipv4Text, List.intercalate_cons_cons]

/-- A host of a special URL is an address in brackets or has neither forbidden characters nor
capitals. -/
theorem special?_eq_some (h : special? t = some x) :
    bracketed? t = some x ∨
      x ≠ [] ∧ ∀ c ∈ x, isForbiddenInDomain c = false ∧ ¬Case.IsCapital c := by
  unfold special? at h
  split at h
  · exact .inl h
  · right
    dsimp only at h
    split_ifs at h with hbad hnumber
    · obtain ⟨n, _, rfl⟩ := Option.map_eq_some_iff.mp h
      have hchar : ∀ c ∈ ".0123456789".toList, isForbiddenInDomain c = false ∧ ¬Case.IsCapital c :=
        Text.forall_of_all (by decide)
      exact ⟨ipv4Text_ne_nil n, fun c hc => hchar c (mem_ipv4Text hc)⟩
    · obtain rfl := Option.some.inj h
      simp only [Bool.or_eq_true, not_or, List.isEmpty_iff, Bool.not_eq_true,
        List.any_eq_false] at hbad
      have hcapital : ∀ c ∈ '.' :: '-' :: Punycode.digits, ¬Case.IsCapital c :=
        Text.forall_of_all (by decide)
      refine ⟨hbad.1.1, fun c hc => ⟨by simpa using hbad.2 c hc, ?_⟩⟩
      rcases Punycode.mem_domain hc with hc | hc
      · exact Text.not_isCapital_of_mem_lower hc
      · exact hcapital c hc

theorem special?_ne_nil (h : special? t = some x) : x ≠ [] := by
  rcases special?_eq_some h with h | h
  · rintro rfl
    cases (bracketed?_eq_some h).1
  · exact h.1

theorem special?_eq_localhost_iff
    (h : ∀ c ∈ x, isForbiddenInDomain c = false ∧ ¬Case.IsCapital c) :
    special? x = some "localhost".toList ↔ x = "localhost".toList := by
  have hlower : Text.lower (Utf8.decode (Percent.decode x)) = Text.lower x := by
    have hpercent : '%' ∉ x := fun hm => absurd (h '%' hm).1 (by decide)
    rw [Percent.decode_eq_utf8 hpercent, Utf8.decode_utf8]
  have hhead : ¬(x.head? == some '[') = true := by
    intro hb
    have hm : '[' ∈ x := List.mem_of_mem_head? (beq_iff_eq.mp hb)
    exact absurd (h '[' hm).1 (by decide)
  have hw : x.lower = "localhost".toList ↔ x = "localhost".toList :=
    Text.lower_eq_iff (fun c hc => (h c hc).2) (Text.forall_of_all (by decide))
  rw [special?, if_neg hhead, hlower]
  constructor
  · intro hs
    dsimp only at hs
    split_ifs at hs with hbad hnumber
    · obtain ⟨n, _, hn⟩ := Option.map_eq_some_iff.mp hs
      have hl : 'l' ∈ ipv4Text n := by rw [hn]; decide
      exact absurd (mem_ipv4Text hl) (by decide)
    · exact hw.mp (Punycode.domain_eq_localhost_iff.mp (Option.some.inj hs))
  · intro hx
    rw [hw.mpr hx]
    decide

theorem other?_eq_some (h : other? t = some x) :
    bracketed? t = some x ∨ ∀ c ∈ x, Percent.Stands forbidden c := by
  unfold other? at h
  split_ifs at h with hhead hbad
  · exact .inl h
  · right
    obtain rfl := Option.some.inj h
    simp only [List.any_eq_true, List.contains_iff_mem, not_exists, not_and] at hbad
    intro c hc
    rcases Percent.mem_encode_utf8 hc with hm | ⟨hs, ht⟩
    · exact Text.forall_of_all (by decide) c hm
    · exact ⟨hs.1, hbad c ht⟩

theorem other?_eq_self (h : ∀ c ∈ x, Percent.Stands forbidden c) : other? x = some x := by
  have hhead : ¬(x.head? == some '[') = true := by
    intro hb
    have hm : '[' ∈ x := List.mem_of_mem_head? (beq_iff_eq.mp hb)
    exact (h '[' hm).2 (by decide)
  have hany : ¬x.any forbidden.contains = true := by
    simp only [List.any_eq_true, List.contains_iff_mem, not_exists, not_and]
    exact fun c hc => (h c hc).2
  rw [other?, if_neg hhead, if_neg hany,
    Percent.encode_eq_self fun c hc => ⟨(h c hc).1, List.not_mem_nil⟩]

def read? (isSpecial : Bool) (t : Text) : Option Text :=
  if isSpecial then special? t else other? t

variable {isSpecial : Bool}

def enders : Text := "#/?@\\".toList

theorem lt_of_not_mem_forbidden {c : Char} (hc : 0x20 ≤ c.toNat) (hf : c ∉ forbidden) :
    0x20 < c.toNat ∧ c ∉ enders := by
  have hsub : ∀ d ∈ enders, d ∈ forbidden := Text.forall_of_all (by decide)
  refine ⟨Nat.lt_of_le_of_ne hc fun he => hf ?_, fun hm => hf (hsub c hm)⟩
  rw [← Char.toNat_inj.mp (show ' '.toNat = c.toNat from he)]
  decide

/-- Only an address in brackets has a colon, and no host has what ends an authority. -/
theorem mem_of_read? (h : read? isSpecial t = some x) :
    (x.head? = some '[' ∨ ':' ∉ x) ∧ ∀ c ∈ x, 0x20 < c.toNat ∧ c ∉ enders := by
  have hbracketed (hb : bracketed? t = some x) :
      (x.head? = some '[' ∨ ':' ∉ x) ∧ ∀ c ∈ x, 0x20 < c.toNat ∧ c ∉ enders := by
    obtain ⟨hhead, hx⟩ := bracketed?_eq_some hb
    have hchar : ∀ c ∈ "[]:0123456789abcdef".toList, 0x20 < c.toNat ∧ c ∉ enders :=
      Text.forall_of_all (by decide)
    exact ⟨.inl hhead, fun c hc => hchar c (hx c hc)⟩
  have hplain (hx : ∀ c ∈ x, 0x20 ≤ c.toNat ∧ c ∉ forbidden) :
      (x.head? = some '[' ∨ ':' ∉ x) ∧ ∀ c ∈ x, 0x20 < c.toNat ∧ c ∉ enders :=
    ⟨.inr fun hm => (hx ':' hm).2 (by decide),
      fun c hc => lt_of_not_mem_forbidden (hx c hc).1 (hx c hc).2⟩
  unfold read? at h
  split at h
  · rcases special?_eq_some h with h | ⟨_, h⟩
    · exact hbracketed h
    · refine hplain fun c hc => ?_
      have hf := (h c hc).1
      simp only [isForbiddenInDomain, Bool.or_eq_false_iff, decide_eq_false_iff_not,
        Nat.not_lt] at hf
      refine ⟨hf.1.1.1, fun hm => ?_⟩
      rw [List.contains_iff_mem.mpr hm] at hf
      exact absurd hf.2 (by decide)
  · rcases other?_eq_some h with h | h
    · exact hbracketed h
    · exact hplain fun c hc => ⟨(h c hc).1.1, (h c hc).2⟩

theorem filter_read?_of_head (h : x.head? = some '[') :
    (read? isSpecial x).filter isLocal = none := by
  have hb : read? isSpecial x = bracketed? x := by
    cases isSpecial <;> simp [read?, special?, other?, h]
  rw [hb, Option.filter_eq_none_iff]
  intro y hy
  rw [isLocal_of_head (bracketed?_eq_some hy).1]
  decide

/-- A host that is read again is local just if it was. -/
theorem filter_read? (h : read? isSpecial t = some x) :
    (read? isSpecial x).filter isLocal = (some x).filter isLocal := by
  have hbracketed (hb : bracketed? t = some x) :
      (read? isSpecial x).filter isLocal = (some x).filter isLocal := by
    have hhead := (bracketed?_eq_some hb).1
    rw [filter_read?_of_head hhead, Option.filter_some, isLocal_of_head hhead]
    rfl
  cases isSpecial with
  | true =>
    rcases special?_eq_some h with h | ⟨hne, h⟩
    · exact hbracketed h
    · by_cases hx : x = "localhost".toList
      · exact congrArg (Option.filter isLocal)
          (((special?_eq_localhost_iff h).mpr hx).trans (congrArg some hx.symm))
      · rw [Option.filter_some, isLocal_eq_false_iff.mpr ⟨hne, hx⟩]
        refine Option.filter_eq_none_iff.mpr fun y hy => ?_
        rw [isLocal_eq_false_iff.mpr ⟨special?_ne_nil hy, ?_⟩]
        · decide
        · rintro rfl
          exact hx ((special?_eq_localhost_iff h).mp hy)
  | false =>
    rcases other?_eq_some h with h | h
    · exact hbracketed h
    · exact congrArg (Option.filter isLocal) (other?_eq_self h)

end Host

end RailsLookup
