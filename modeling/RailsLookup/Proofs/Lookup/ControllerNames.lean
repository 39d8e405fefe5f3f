import Mathlib
import RailsLookup.Lookup.Controller
import RailsLookup.Proofs.Disk.Below
import RailsLookup.Proofs.Text.Decoding
import RailsLookup.Proofs.Text.Pieces
import RailsLookup.Proofs.Text.Reading

/-! # Names of controllers

The name of a controller is what stands between a directory of controllers and the end of its file
name. The leftmost such directory of the path counts. Below an application the name is therefore
the path from its own controllers on, unless the application itself lives below a directory of that
name.
-/

namespace RailsLookup

namespace Pattern

variable {body : Pattern} {L : Language Char} {f s w front rest t : Text}

theorem mem_between_lit_finish_iff (hb : body.Spells L) (front : Text) :
    w ∈ ((lit f).ends (.between front t)).flatMap (fun first =>
      ((body.ends first).filter (lit s ++ finish).startsAt).map first.textUntil) ↔
        w ∈ L ∧ t = f ++ (w ++ s) := by
  simp only [List.mem_flatMap, List.mem_map, List.mem_filter, hb _ _, spells_lit f _ _]
  constructor
  · rintro ⟨_, ⟨_, rfl, hf⟩, e, ⟨⟨w, hw, hr⟩, he⟩, rfl⟩
    obtain ⟨after, rfl, rfl⟩ := hf.eq_between
    rw [hr.textUntil_eq]
    obtain ⟨rest, rfl, rfl⟩ := hr.eq_between
    obtain rfl : rest = s := ((spells_lit s).startsAt_append_finish_iff _).mp he
    exact ⟨hw, rfl⟩
  · rintro ⟨hw, rfl⟩
    have hr := Spot.reads_between (front ++ f) w s
    exact ⟨_, ⟨f, rfl, Spot.reads_between front f (w ++ s)⟩, _,
      ⟨⟨w, hw, hr⟩, ((spells_lit s).startsAt_append_finish_iff _).mpr rfl⟩, hr.textUntil_eq⟩

theorem between?_lit_finish_iff (hb : body.Spells L) :
    between? (lit f) body (lit s ++ finish) (.between front t) = some w ↔
      w ∈ L ∧ t = f ++ (w ++ s) := by
  constructor
  · intro h
    exact (mem_between_lit_finish_iff hb front).mp (List.mem_of_mem_head? h)
  · rintro ⟨hw, ht⟩
    have hm := (mem_between_lit_finish_iff hb front).mpr ⟨hw, ht⟩
    obtain ⟨v, hv⟩ := Option.isSome_iff_exists.mp
      (List.isSome_head?.mpr (List.ne_nil_of_mem hm))
    have ht' := ((mem_between_lit_finish_iff hb front).mp (List.mem_of_mem_head? hv)).2
    rw [ht, List.append_right_inj, List.append_left_inj] at ht'
    rw [between?, hv, ht']

end Pattern

namespace Path

variable {p q : Path} {d n m t x y : Text}

def controllersFolder : Text := "/controllers/".toList

def controllerEnding : Text := "_controller.rb".toList

/-- The text is a path in which `m` stands between a directory of controllers and the end of
the file name. -/
def Controls (t x m : Text) : Prop :=
  t = x ++ (controllersFolder ++ (m ++ controllerEnding)) ∧ m ≠ [] ∧ '\n' ∉ m

/-- The directory of controllers is the leftmost one that can do. -/
def FirstControls (t x m : Text) : Prop :=
  Controls t x m ∧ ∀ x' m', Controls t x' m' → x.length ≤ x'.length

theorem between?_controllers_iff :
    Pattern.between? (.lit controllersFolder) (.one (· != '\n') ++ .most (· != '\n'))
        (.lit controllerEnding ++ .finish) (.between x t) = some m ↔
      Controls (x ++ t) x m := by
  have hline : '\n' ∉ m ↔ ∀ c ∈ m, (c != '\n') = true := by
    simp only [bne_iff_ne]
    exact ⟨fun h c hc he => h (he ▸ hc), fun h hm => h _ hm rfl⟩
  rw [Pattern.between?_lit_finish_iff (Pattern.spells_some _), Controls, List.append_right_inj,
    hline, and_comm]
  rfl

theorem controllerName?_eq_some_iff :
    p.controllerName? = some m ↔
      ∃ x, FirstControls (Text.replaceChar '\\' '/' p.display) x m := by
  change Pattern.capture? (.lit controllersFolder) (.one (· != '\n') ++ .most (· != '\n'))
    (.lit controllerEnding ++ .finish) _ = some m ↔ _
  rw [Pattern.capture?_eq_some_iff]
  generalize Text.replaceChar '\\' '/' p.display = t
  constructor
  · rintro ⟨front, rest, rfl, hm, hfirst⟩
    refine ⟨front, between?_controllers_iff.mp hm, ?_⟩
    intro x' m' h
    by_contra hlt
    have hsome := between?_controllers_iff.mpr (h.1 ▸ h)
    rw [hfirst x' _ h.1 (by omega)] at hsome
    cases hsome
  · rintro ⟨x, h, hleast⟩
    refine ⟨x, _, h.1, between?_controllers_iff.mpr (h.1 ▸ h), ?_⟩
    intro front' rest' ht hlt
    refine Option.eq_none_iff_forall_ne_some.mpr fun m' hm => ?_
    have hle := hleast front' m' (ht ▸ between?_controllers_iff.mp hm)
    omega

def directoryText (p : Path) : Text := Text.replaceChar '\\' '/' (p.join (.ofText [])).display

theorem display_join (h : (ofText t).isAbsolute = false) :
    (p.join (.ofText t)).display = (p.join (.ofText [])).display ++ t := by
  rw [display, display, bytes_join h, Utf8.decode, Utf8.decode]
  have ht : Utf8.decodeFrom none (ofText t).bytes = t := Utf8.decode_utf8 t
  obtain ⟨he, -⟩ | ⟨b, he, -⟩ := p.bytes_join_nil
  · rw [he, List.nil_append, ht]
    rfl
  · rw [he, List.append_assoc, List.singleton_append,
      Utf8.decodeFrom_append_of_lt Utf8.sound_none (by decide), ht]

/-- The directory lies below a directory of controllers, and `y` is the way to it. -/
def UnderControllers (d x y : Text) : Prop := d = x ++ (controllersFolder ++ y) ∧ '\n' ∉ y

def FirstUnderControllers (d x y : Text) : Prop :=
  UnderControllers d x y ∧ ∀ x' y', UnderControllers d x' y' → x.length ≤ x'.length

def controllerFile (n : Text) : Text :=
  "app".toList ++ (controllersFolder ++ (n ++ controllerEnding))

theorem controls_own (hne : n ≠ []) (hline : '\n' ∉ n) (d : Text) :
    Controls (d ++ controllerFile n) (d ++ "app".toList) n :=
  ⟨by rw [controllerFile, List.append_assoc], hne, hline⟩

theorem UnderControllers.length_add_le (h : UnderControllers d x y) : x.length + 13 ≤ d.length := by
  have hfolder : controllersFolder.length = 13 := by decide
  rw [h.1, List.length_append, List.length_append]
  omega

theorem UnderControllers.controls (h : UnderControllers d x y) (hline : '\n' ∉ n) :
    Controls (d ++ controllerFile n) x (y ++ ("app".toList ++ (controllersFolder ++ n))) := by
  obtain ⟨rfl, hy⟩ := h
  refine ⟨by simp only [controllerFile, List.append_assoc], by simp, ?_⟩
  simp only [List.mem_append, not_or]
  exact ⟨hy, by decide, by decide, hline⟩

/-- A directory of controllers on the way to the application ends where that of the application
begins, or before. -/
theorem exists_of_controllersFolder_append_eq {back : Text}
    (h : controllersFolder ++ t = back ++ controllerFile n) :
    ∃ y, back = controllersFolder ++ y ∧ t = y ++ controllerFile n := by
  obtain ⟨y, hback, ht⟩ | ⟨cut, hcut, hfile⟩ := List.append_eq_append_iff.mp h
  · exact ⟨y, hback, ht⟩
  · cases cut with
    | nil => exact ⟨[], by rw [hcut, List.append_nil, List.append_nil], hfile.symm⟩
    | cons a cut =>
      have ha : a ∈ controllersFolder := by simp [hcut]
      obtain rfl : 'a' = a := (List.cons.inj hfile).1
      exact absurd ha (by decide)

theorem Controls.underControllers (h : Controls (d ++ controllerFile n) x m)
    (hlt : x.length < d.length + 3) :
    ∃ y, UnderControllers d x y ∧ m = y ++ ("app".toList ++ (controllersFolder ++ n)) := by
  obtain ⟨ht, _, hline⟩ := h
  obtain ⟨front, rfl, hfile⟩ | ⟨back, rfl, hrest⟩ := List.append_eq_append_iff.mp ht
  · -- the name of the application's own directory has no slash
    have hfront : front.length < 3 := by
      rw [List.length_append] at hlt
      omega
    have hslash : (controllerFile n)[front.length]? = some '/' := by
      rw [hfile, List.getElem?_append_right le_rfl, Nat.sub_self]
      rfl
    have happ : ∀ i < 3, "app".toList[i]? ≠ some '/' := by decide
    rw [controllerFile, List.getElem?_append_left (by simpa using hfront)] at hslash
    exact absurd hslash (happ _ hfront)
  · obtain ⟨y, rfl, hm⟩ := exists_of_controllersFolder_append_eq hrest
    obtain rfl : m = y ++ ("app".toList ++ (controllersFolder ++ n)) := by
      simp only [controllerFile, ← List.append_assoc, List.append_left_inj] at hm ⊢
      exact hm
    exact ⟨y, ⟨rfl, fun hy => hline (List.mem_append_left _ hy)⟩, rfl⟩

theorem replaceChar_display_join (hback : '\\' ∉ n) :
    Text.replaceChar '\\' '/' (p.join (.ofText (controllerFile n))).display =
      p.directoryText ++ controllerFile n := by
  have hfile : '\\' ∉ controllerFile n := by
    simp only [controllerFile, List.mem_append, not_or]
    exact ⟨by decide, by decide, hback, by decide⟩
  rw [display_join rfl, Text.replaceChar, List.map_append]
  exact congrArg (p.directoryText ++ ·) (Text.replaceChar_eq_self hfile)

/-- The name of a controller is the way to it from the controllers of its application exactly if
the application does not lie below another directory of controllers; otherwise the way from there
is put in front of it. -/
theorem controllerName?_below_application (p : Path) (n : Text) (hne : n ≠ []) (hline : '\n' ∉ n)
    (hback : '\\' ∉ n) :
    ((p.join (.ofText (controllerFile n))).controllerName? = some n ↔
      ∀ x y, ¬UnderControllers p.directoryText x y) ∧
    ∀ x y, FirstUnderControllers p.directoryText x y →
      (p.join (.ofText (controllerFile n))).controllerName? =
        some (y ++ ("app".toList ++ (controllersFolder ++ n))) := by
  simp only [controllerName?_eq_some_iff, replaceChar_display_join hback]
  generalize p.directoryText = d
  refine ⟨⟨?_, ?_⟩, ?_⟩
  · rintro ⟨x, hx, hfirst⟩ x' y' hunder
    have hle := hfirst x' _ (hunder.controls hline)
    have hlt := hunder.length_add_le
    obtain ⟨y, _, hn⟩ := hx.underControllers (by omega)
    have hlen := congrArg List.length hn
    simp only [List.length_append] at hlen
    have happ : 0 < "app".toList.length := by decide
    omega
  · intro hnone
    refine ⟨_, controls_own hne hline d, fun x' m' h => ?_⟩
    by_contra hlt
    rw [List.length_append] at hlt
    obtain ⟨y, hy, _⟩ := h.underControllers (Nat.lt_of_not_le hlt)
    exact hnone x' y hy
  · rintro x y ⟨hunder, hfirst⟩
    refine ⟨x, hunder.controls hline, fun x' m' h => ?_⟩
    by_contra hlt
    have hd := hunder.length_add_le
    obtain ⟨y', hy', _⟩ := h.underControllers (by omega)
    exact hlt (hfirst x' y' hy')

theorem controllerName?_below_blog :
    "admin/posts".toList ≠ [] ∧ '\n' ∉ "admin/posts".toList ∧ '\\' ∉ "admin/posts".toList ∧
      controllerName? ((ofString "/srv/blog").join
        (.ofText (controllerFile "admin/posts".toList))) = some "admin/posts".toList := by
  have hlen : (ofString "/srv/blog").directoryText.length = 10 := by cbv
  refine ⟨by decide, by decide, by decide, ?_⟩
  refine (controllerName?_below_application (.ofString "/srv/blog") "admin/posts".toList (by decide)
    (by decide) (by decide)).1.mpr fun x y h => ?_
  have hle := h.length_add_le
  omega

theorem controllerName?_below_outer_controllers :
    ((ofString "/srv/controllers/blog").join (.ofText (controllerFile "posts".toList))) =
      .ofString "/srv/controllers/blog/app/controllers/posts_controller.rb" ∧
    (ofString "/srv/controllers/blog/app/controllers/posts_controller.rb").controllerName? =
      some "blog/app/controllers/posts".toList := by
  exact ⟨by cbv, by cbv⟩

end Path

end RailsLookup
