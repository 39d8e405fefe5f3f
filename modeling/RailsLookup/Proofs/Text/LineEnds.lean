import RailsLookup.Proofs.Text.Decoding
import RailsLookup.Proofs.Text.Opening

/-! # Two ways to end a line

A line feed may have a carriage return before it. This changes neither the lines of a text nor
the positions in it, nor where a text without line ends occurs.
-/

namespace RailsLookup

/-- The text with a carriage return before every line feed. -/
def Text.crlf (t : Text) : Text := t.flatMap fun c => if c = '\n' then ['\r', '\n'] else [c]

def Bytes.crlf (bytes : Bytes) : Bytes := bytes.flatMap fun b => if b = 10 then [13, 10] else [b]

namespace Text

open Position

variable {t : Text} {c : Char}

@[simp] theorem crlf_nil : crlf [] = [] := rfl

@[simp] theorem crlf_newline (t : Text) : crlf ('\n' :: t) = '\r' :: '\n' :: crlf t := rfl

theorem crlf_cons (h : c ≠ '\n') (t : Text) : crlf (c :: t) = c :: crlf t := by
  simp [crlf, h]

theorem crlf_append (s t : Text) : crlf (s ++ t) = crlf s ++ crlf t := List.flatMap_append

theorem crlf_eq_self (h : '\n' ∉ t) : crlf t = t := by
  induction t with
  | nil => rfl
  | cons c t ih =>
    rw [List.mem_cons, not_or] at h
    rw [crlf_cons (Ne.symm h.1), ih h.2]

theorem lines_crlf (h : '\r' ∉ t) : lines (crlf t) = lines t := by
  induction t with
  | nil => rfl
  | cons c t ih =>
    rw [List.mem_cons, not_or] at h
    by_cases hc : c = '\n'
    · subst hc
      rw [crlf_newline, lines_newline, ← ih h.2]
      rfl
    · have hr : c = '\r' → t.head? ≠ some '\n' := fun hcr => (h.1 hcr.symm).elim
      have hr' : c = '\r' → (crlf t).head? ≠ some '\n' := fun hcr => (h.1 hcr.symm).elim
      rw [crlf_cons hc, lines_cons hc hr, lines_cons hc hr', ih h.2]

theorem after_crlf (t : Text) : after (crlf t) = after t := by
  induction t with
  | nil => rfl
  | cons c t ih =>
    by_cases hc : c = '\n'
    · subst hc
      rw [crlf_newline, after_cons (by decide), after_cons_newline, after_cons_newline, ih]
      rfl
    · rw [crlf_cons hc, after_cons hc, after_cons hc, ih]

/-- A text that holds no part of a line end. -/
def Unbroken (t : Text) : Prop := '\n' ∉ t ∧ '\r' ∉ t
  deriving Decidable

theorem Unbroken.of_subset {s : Text} (h : t.Unbroken) (hs : s ⊆ t) : s.Unbroken :=
  ⟨fun hm => h.1 (hs hm), fun hm => h.2 (hs hm)⟩

theorem unbroken_cons : Unbroken (c :: t) ↔ c ≠ '\n' ∧ c ≠ '\r' ∧ t.Unbroken := by
  simp only [Unbroken, List.mem_cons, not_or, ne_eq, eq_comm (a := c)]
  tauto

theorem unbroken_append {s : Text} : (s ++ t).Unbroken ↔ s.Unbroken ∧ t.Unbroken := by
  simp only [Unbroken, List.mem_append, not_or]
  tauto

theorem isPrefixOf_crlf {s : Text} (hs : s.Unbroken) (t : Text) :
    s.isPrefixOf (crlf t) = s.isPrefixOf t := by
  induction s generalizing t with
  | nil => simp
  | cons a s ih =>
    obtain ⟨hn, hr, hs⟩ := unbroken_cons.mp hs
    cases t with
    | nil => rfl
    | cons c t =>
      by_cases hc : c = '\n'
      · subst hc
        simp [List.isPrefixOf, beq_false_of_ne hn, beq_false_of_ne hr]
      · rw [crlf_cons hc, List.isPrefixOf, List.isPrefixOf, ih hs]

theorem occurs_crlf {s : Text} (hs : s.Unbroken) (hne : s ≠ []) (t : Text) :
    occurs s (crlf t) = occurs s t := by
  obtain ⟨a, s, rfl⟩ := List.exists_cons_of_ne_nil hne
  induction t with
  | nil => rfl
  | cons c t ih =>
    have hp := isPrefixOf_crlf hs (c :: t)
    by_cases hc : c = '\n'
    · subst hc
      have hn := (unbroken_cons.mp hs).1
      rw [crlf_newline] at hp ⊢
      rw [occurs, occurs, occurs, ih, hp]
      simp [List.isPrefixOf, beq_false_of_ne hn]
    · rw [crlf_cons hc] at hp ⊢
      rw [occurs, occurs, ih, hp]

theorem unbroken_of_mem_lines (h : '\r' ∉ t) : ∀ l ∈ lines t, l.Unbroken := by
  induction t with
  | nil => simp [lines]
  | cons c t ih =>
    rw [List.mem_cons, not_or] at h
    by_cases hc : c = '\n'
    · subst hc
      rw [lines_newline, List.forall_mem_cons]
      exact ⟨by decide, ih h.2⟩
    · rw [lines_cons hc fun hcr => (h.1 hcr.symm).elim, List.forall_mem_cons]
      refine ⟨unbroken_cons.mpr ⟨hc, Ne.symm h.1, ?_⟩,
        fun l hl => ih h.2 l (List.mem_of_mem_tail hl)⟩
      cases hl : lines t with
      | nil => decide
      | cons l ls => exact ih h.2 l (by simp [hl])

end Text

namespace Utf8

variable {pending : Option Sequence}

theorem not_mem_step {b : UInt8} {c : Char} (h : Sound pending) (hc : c.toNat < 0x80)
    (hb : b.toNat ≠ c.toNat) : c ∉ (step pending b).1 := by
  intro hm
  by_cases hlt : b.toNat < 0x80
  · rw [step_of_lt h hlt] at hm
    rcases List.mem_append.mp hm with hm | hm
    · obtain ⟨_, _, rfl⟩ := List.mem_map.mp hm
      exact absurd hc (by decide)
    · obtain rfl := List.mem_singleton.mp hm
      rw [Char.toNat_ofNat, if_pos (by unfold Nat.isValidChar; omega)] at hb
      exact hb rfl
  · exact absurd (le_toNat_step h (by omega) c hm) (by omega)

theorem decodeFrom_crlf (h : Sound pending) (bytes : Bytes) :
    decodeFrom pending (Bytes.crlf bytes) = (decodeFrom pending bytes).crlf := by
  induction bytes generalizing pending with
  | nil => cases pending <;> rfl
  | cons b bytes ih =>
    by_cases hb : b = 10
    · subst hb
      have hp : '\n' ∉ pending.toList.map fun _ => replacement := by
        cases pending <;> simp [replacement]
      have he : Bytes.crlf (10 :: bytes) = 13 :: 10 :: Bytes.crlf bytes := rfl
      rw [he, decodeFrom_cons, decodeFrom_cons, decodeFrom_cons, step_of_lt h (by decide),
        step_of_lt h (by decide), step_of_lt sound_none (by decide), ih sound_none,
        Text.crlf_append, Text.crlf_append, Text.crlf_eq_self hp]
      simp
    · have he : Bytes.crlf (b :: bytes) = b :: Bytes.crlf bytes := by simp [Bytes.crlf, hb]
      have hn : '\n' ∉ (step pending b).1 :=
        not_mem_step h (by decide) fun h => hb (UInt8.toNat_inj.mp h)
      rw [he, decodeFrom_cons, decodeFrom_cons, ih (h.step b), Text.crlf_append,
        Text.crlf_eq_self hn]

theorem decode_crlf (bytes : Bytes) : decode (Bytes.crlf bytes) = (decode bytes).crlf :=
  decodeFrom_crlf sound_none bytes

/-- A character of ASCII in a text comes from its byte. -/
theorem not_mem_decode {bytes : Bytes} {c : Char} (hc : c.toNat < 0x80)
    (h : ∀ b ∈ bytes, b.toNat ≠ c.toNat) : c ∉ decode bytes := by
  have hfrom (pending : Option Sequence) (hs : Sound pending) : c ∉ decodeFrom pending bytes := by
    induction bytes generalizing pending with
    | nil =>
      have hr : c ≠ replacement := by
        rintro rfl
        exact absurd hc (by decide)
      cases pending <;> simp [decodeFrom, hr]
    | cons b bytes ih =>
      rw [List.forall_mem_cons] at h
      rw [decodeFrom_cons, List.mem_append, not_or]
      exact ⟨not_mem_step hs hc h.1, ih h.2 _ (hs.step b)⟩
  exact hfrom none sound_none

end Utf8

end RailsLookup
