import Mathlib
import RailsLookup.Proofs.Url.Host
import RailsLookup.Url.Reader

/-! # Authorities that are read again

The parts of an authority hold none of the marks between them, so its text falls into the same
parts again.
-/

namespace RailsLookup

namespace Digits

theorem number?_append (base : Nat) (ds : Text) (d : Char) :
    number? base (ds ++ [d]) =
      (number? base ds).bind fun n => ((value? d).filter (· < base)).map (n * base + ·) := by
  simp [number?, List.foldlM_append]

theorem number?_decimal (n : Nat) : number? 10 (decimal n) = some n := by
  have hvalue : ∀ d < 10, value? (Nat.digitChar d) = some d := by decide
  unfold decimal
  induction n using Nat.strongRecOn with
  | ind n ih =>
    rw [Nat.toDigits_eq_if (by decide)]
    split
    · next hn => simp [number?, hvalue n hn, hn]
    · next hn =>
      have hd := Nat.mod_lt n (show 0 < 10 by decide)
      rw [number?_append, ih (n / 10) (by omega), hvalue _ hd]
      simp [hd]
      omega

end Digits

namespace Url.Reader

variable {c : Char} {s t : Text}

theorem cut_of_not_mem (h : c ∉ t) : cut c t = (t, none) := by
  rw [cut, List.dropWhile_eq_nil_iff.mpr (Text.bne_of_not_mem h)]

theorem cut_append (h : c ∉ s) (t : Text) : cut c (s ++ c :: t) = (s, some t) := by
  rw [cut, Text.dropWhile_ne_append h, Text.takeWhile_ne_append h]

end Url.Reader

namespace Authority

variable {a : Authority}

def loginText (a : Authority) : Text :=
  if a.user.isEmpty && a.password.isEmpty then []
  else a.user ++ (if a.password.isEmpty then [] else ':' :: a.password) ++ ['@']

def socketText (a : Authority) : Text :=
  match a.socket? with
  | some n => ':' :: Digits.decimal n
  | none => []

theorem mem_loginText {c : Char} (h : c ∈ a.loginText) :
    c ∈ a.user ++ a.password ∨ c ∈ [':', '@'] := by
  unfold loginText at h
  split at h
  · cases h
  · rw [List.mem_append, List.mem_append] at h
    rcases h with (h | h) | h
    · exact .inl (List.mem_append_left _ h)
    · split at h
      · cases h
      · rcases List.mem_cons.mp h with rfl | h
        · exact .inr List.mem_cons_self
        · exact .inl (List.mem_append_right _ h)
    · exact .inr (List.mem_cons_of_mem _ h)

theorem toText_eq (a : Authority) : a.toText = a.loginText ++ (a.host ++ a.socketText) :=
  List.append_assoc ..

end Authority

namespace Url.Reader

variable {special : Option (Option Nat)} {t : Text} {a : Authority}

theorem authority?_eq (special : Option (Option Nat)) (t : Text) :
    authority? special t =
      (Host.read? special.isSome (hostAndSocket (login? t).2).1).bind fun host =>
        if host.isEmpty && ((login? t).1.isSome || (login? t).2.contains ':') then none
        else (socket? special.join (hostAndSocket (login? t).2).2).map fun socket? =>
          { user := ((login? t).1.getD ([], [])).1, password := ((login? t).1.getD ([], [])).2
            host, socket? } := by
  have hguard (b : Bool) (socket? : Option (Option Nat)) (make : Option Nat → Authority) :
      ((guard ((!b) = true) : Option Unit).bind fun _ => socket?.bind fun n => some (make n)) =
        if b then none else socket?.map make := by
    cases b <;> cases socket? <;> rfl
  cases special <;>
    simp only [authority?, Host.read?, Option.isSome_none, Option.isSome_some, Bool.false_eq_true,
      if_false, if_true, Option.bind_eq_bind, Option.pure_def, hguard]

theorem read?_of_authority? (h : authority? special t = some a) :
    Host.read? special.isSome (hostAndSocket (login? t).2).1 = some a.host := by
  rw [authority?_eq, Option.bind_eq_some_iff] at h
  obtain ⟨host, hh, h⟩ := h
  split_ifs at h
  obtain ⟨socket, _, rfl⟩ := Option.map_eq_some_iff.mp h
  exact hh

/-- What is known of an authority that was read. -/
structure Reads (special : Option (Option Nat)) (a : Authority) : Prop where
  login : ∀ c ∈ a.user ++ a.password, Percent.Stands Percent.inUserInfo c
  host : ∃ t, Host.read? special.isSome t = some a.host
  bare : a.host = [] → a.user = [] ∧ a.password = [] ∧ a.socket? = none
  socket : ∀ n, a.socket? = some n → n < 0x10000

theorem stands_of_login? (t : Text) :
    let login := (login? t).1.getD ([], [])
    ∀ c ∈ login.1 ++ login.2, Percent.Stands Percent.inUserInfo c := by
  have hencode {s : Text} {c : Char} (hc : c ∈ Percent.encode Percent.inUserInfo s.utf8) :
      Percent.Stands Percent.inUserInfo c := by
    rcases Percent.mem_encode_utf8 hc with hm | ⟨hs, _⟩
    · exact Text.forall_of_all (by decide) c hm
    · exact hs
  unfold login?
  cases Text.cutLast ['@'] t with
  | none => simp
  | some parts =>
    intro login c hc
    rcases List.mem_append.mp hc with hc | hc
    · exact hencode hc
    · exact hencode hc

theorem head?_hostAndSocket (h : t.head? = some '[') :
    (hostAndSocket t).1.head? = some '[' := by
  obtain ⟨x, rfl⟩ := List.head?_eq_some_iff.mp h
  simp [hostAndSocket]

theorem hostAndSocket_of_not_mem (h : ':' ∉ t) : (hostAndSocket t).2 = [] := by
  have hd : ':' ∉ t.dropWhile (· != ']') := fun hm => h ((List.dropWhile_suffix _).subset hm)
  unfold hostAndSocket
  split
  · dsimp only
    rw [cut_of_not_mem hd]
    rfl
  · rw [cut_of_not_mem h]
    rfl

theorem lt_of_socket? {default : Option Nat} {n : Nat} (h : socket? default t = some (some n)) :
    n < 0x10000 := by
  unfold socket? at h
  split at h
  · cases h
  · obtain ⟨m, hm, h⟩ := Option.map_eq_some_iff.mp h
    split at h
    · cases h
    · obtain rfl := Option.some.inj h
      simpa using (Option.filter_eq_some_iff.mp hm).2

theorem reads_of_authority? (h : authority? special t = some a) : Reads special a := by
  rw [authority?_eq, Option.bind_eq_some_iff] at h
  obtain ⟨host, hh, h⟩ := h
  split_ifs at h with hg
  obtain ⟨socket, hs, rfl⟩ := Option.map_eq_some_iff.mp h
  refine ⟨stands_of_login? t, ⟨_, hh⟩, ?_, ?_⟩
  · rintro rfl
    simp only [List.isEmpty_nil, Bool.true_and, Bool.or_eq_true, not_or, Bool.not_eq_true,
      Option.isSome_eq_false_iff, Option.isNone_iff_eq_none] at hg
    obtain ⟨hl, hcolon⟩ := hg
    have hcolon : ':' ∉ (login? t).2 := fun hm => by
      rw [List.contains_iff_mem.mpr hm] at hcolon
      cases hcolon
    rw [hostAndSocket_of_not_mem hcolon] at hs
    simp only [hl]
    exact ⟨rfl, rfl, (Option.some.inj hs).symm⟩
  · rintro n rfl
    exact lt_of_socket? hs

namespace Reads

variable (h : Reads special a)

include h

theorem mem_login {c : Char} (hc : c ∈ a.loginText) : 0x20 < c.toNat ∧ c ∉ "#/?\\".toList := by
  have hreserved : ∀ c ∈ "#/?\\".toList, c ∈ Percent.inUserInfo := Text.forall_of_all (by decide)
  have hmark : ∀ c ∈ [':', '@'], 0x20 < c.toNat ∧ c ∉ "#/?\\".toList :=
    Text.forall_of_all (by decide)
  rcases Authority.mem_loginText hc with hc | hc
  · have hs := h.login c hc
    exact ⟨hs.lt_toNat (by decide), fun hm => hs.2 (hreserved c hm)⟩
  · exact hmark c hc

theorem mem_rest {c : Char} (hc : c ∈ a.host ++ a.socketText) :
    0x20 < c.toNat ∧ c ∉ Host.enders := by
  rcases List.mem_append.mp hc with hc | hc
  · obtain ⟨t, ht⟩ := h.host
    exact (Host.mem_of_read? ht).2 c hc
  · have hdigit : ∀ d < 10, Nat.digitChar d ∈ ":0123456789".toList := by decide
    have hchar : ∀ c ∈ ":0123456789".toList, 0x20 < c.toNat ∧ c ∉ Host.enders :=
      Text.forall_of_all (by decide)
    refine hchar c ?_
    unfold Authority.socketText at hc
    split at hc
    · rcases List.mem_cons.mp hc with rfl | hc
      · decide
      · obtain ⟨d, hd, rfl⟩ := Digits.exists_of_mem_toDigits (by decide) hc
        exact hdigit d hd
    · cases hc

theorem mem_toText {c : Char} (hc : c ∈ a.toText) : 0x20 < c.toNat ∧ c ∉ "#/?\\".toList := by
  have henders : ∀ c ∈ "#/?\\".toList, c ∈ Host.enders := Text.forall_of_all (by decide)
  rw [a.toText_eq] at hc
  rcases List.mem_append.mp hc with hc | hc
  · exact h.mem_login hc
  · exact ⟨(h.mem_rest hc).1, fun hm => (h.mem_rest hc).2 (henders c hm)⟩

theorem login?_toText :
    (login? a.toText).2 = a.host ++ a.socketText ∧
      ((login? a.toText).1.isSome = true → ¬(a.user = [] ∧ a.password = [])) := by
  have hat : '@' ∉ a.host ++ a.socketText := fun hm => (h.mem_rest hm).2 (by decide)
  rw [a.toText_eq, Authority.loginText]
  split
  · rw [List.nil_append, login?, Text.cutLast_eq_none hat]
    simp
  · next hne =>
    rw [List.append_assoc, List.singleton_append, login?, Text.cutLast_append hat]
    refine ⟨rfl, fun _ hboth => hne ?_⟩
    simp [hboth.1, hboth.2]

omit h in
theorem hostAndSocket_rest (hcolon : ':' ∉ a.host) (hhead : a.host.head? ≠ some '[') :
    hostAndSocket (a.host ++ a.socketText) = (a.host, (a.socket?.map Digits.decimal).getD []) := by
  have hcut : cut ':' (a.host ++ a.socketText) = (a.host, a.socket?.map Digits.decimal) := by
    unfold Authority.socketText
    cases a.socket? with
    | none => exact (List.append_nil a.host).symm ▸ cut_of_not_mem hcolon
    | some n => exact cut_append hcolon _
  have hne : (a.host ++ a.socketText).head? ≠ some '[' := by
    cases hh : a.host with
    | nil =>
      unfold Authority.socketText
      cases a.socket? <;> simp
    | cons c x => simpa [hh] using hhead
  unfold hostAndSocket
  split
  · next heq => simp [heq] at hne
  · rw [hcut]

theorem isSome_socket? :
    (socket? special.join ((a.socket?.map Digits.decimal).getD [])).isSome := by
  cases hs : a.socket? with
  | none => rfl
  | some n =>
    have hn := h.socket n hs
    have hne : (Digits.decimal n).isEmpty = false := by simp [Digits.decimal, Nat.toDigits_ne_nil]
    simp [socket?, Digits.number?_decimal, Option.filter_some, hn, hne]

theorem isSome_authority? (hcolon : ':' ∉ a.host) (hhead : a.host.head? ≠ some '[')
    (hr : Host.read? special.isSome a.host = some a.host) :
    (authority? special a.toText).isSome := by
  obtain ⟨hlogin, hsome⟩ := h.login?_toText
  rw [authority?_eq, hlogin, hostAndSocket_rest hcolon hhead, hr, Option.bind_some, if_neg]
  · rw [Option.isSome_map]
    exact h.isSome_socket?
  · simp only [Bool.and_eq_true, List.isEmpty_iff, Bool.or_eq_true, List.contains_iff_mem]
    rintro ⟨hnil, hl | hm⟩
    · exact hsome hl ⟨(h.bare hnil).1, (h.bare hnil).2.1⟩
    · simp [hnil, Authority.socketText, (h.bare hnil).2.2] at hm

/-- The host of an authority that is read again is local just if it was. -/
theorem filter_host :
    ((authority? special a.toText).map (·.host)).filter Host.isLocal =
      (some a.host).filter Host.isLocal := by
  obtain ⟨t, ht⟩ := h.host
  have hcolon (hhead : a.host.head? ≠ some '[') : ':' ∉ a.host :=
    (Host.mem_of_read? ht).1.resolve_left hhead
  have hhost : (Host.read? special.isSome (hostAndSocket (login? a.toText).2).1).filter
      Host.isLocal = (some a.host).filter Host.isLocal := by
    rw [h.login?_toText.1]
    by_cases hhead : a.host.head? = some '['
    · have hrest : (a.host ++ a.socketText).head? = some '[' := by
        rw [List.head?_append, hhead]
        rfl
      rw [Host.filter_read?_of_head (head?_hostAndSocket hrest), Option.filter_some,
        Host.isLocal_of_head hhead]
      rfl
    · rw [hostAndSocket_rest (hcolon hhead) hhead]
      exact Host.filter_read? ht
  cases ha : authority? special a.toText with
  | some a' => rw [Option.map_some, ← hhost, read?_of_authority? ha]
  | none =>
    -- Only a host that is not local can fail to be read again.
    symm
    refine Option.filter_eq_none_iff.mpr ?_
    rintro _ ⟨⟩ hl
    have hhead : a.host.head? ≠ some '[' := by
      intro hhead
      rw [Host.isLocal_of_head hhead] at hl
      cases hl
    have hr := Host.filter_read? ht
    rw [Option.filter_some, if_pos hl] at hr
    have hs := h.isSome_authority? (hcolon hhead) hhead (Option.filter_eq_some_iff.mp hr).1
    rw [ha] at hs
    cases hs

end Reads

end Url.Reader

end RailsLookup
