import RailsLookup.Proofs.Lookup.Soundness

/-! # How resolutions fail

A category's own lookup may fail in several ways, and each of them only leads on to the lookup
of a method. So a resolution fails in one way, with the word of the reference. Without a
workspace nothing but the document can be searched.
-/

namespace RailsLookup

variable {c : Context} {r : Reference} {category : Category} {name content : Text}
  {l : Location} {e : LookupError}

theorem Context.foundOr_eq_error_iff {found : Option Location} :
    foundOr name found = .error e ↔ found = none ∧ e = .notFound name := by
  cases found <;> simp [foundOr, eq_comm]

namespace Method

theorem find_eq_error_iff :
    find c name content = .error e ↔
      (∀ l, find c name content ≠ .ok l) ∧ e = .notFound name := by
  unfold find
  rw [Context.foundOr_eq_error_iff, Option.eq_none_iff_forall_ne_some]
  simp only [ne_eq, Context.foundOr_eq_ok_iff]

theorem helper?_eq_none_of_workspace? (h : c.workspace? = none) (document : Path) :
    helper? c document = none := by
  unfold helper?
  cases document.controllerName? <;> simp [h]

theorem document?_of_find? (hw : c.workspace? = none) (h : find? c name content = some l) :
    c.document? = some l.path := by
  simp only [find?, Option.bind_eq_bind, Option.bind_eq_some_iff] at h
  obtain ⟨document, hd, h⟩ := h
  split at h
  · obtain rfl := Option.some.inj h
    exact hd
  · simp [helper?_eq_none_of_workspace? hw] at h

end Method

namespace Category

/-- Every lookup of a category asks for a workspace, at the latest when it has a name to look
for. -/
theorem exists_workspace?_of_lookup? (h : category.lookup? c r = some (.ok l)) :
    ∃ root, c.workspace? = some root := by
  have hbind {f : Path → Except LookupError Location} (h : c.workspace >>= f = .ok l) :
      ∃ root, c.workspace? = some root := by
    obtain ⟨root, hr, _⟩ := Context.workspace_bind_eq_ok_iff.mp h
    exact ⟨root, hr⟩
  cases category <;> simp only [lookup?, Option.some.injEq, reduceCtorEq] at h
  case helper | mailer | view | model => exact hbind h
  case service | controller =>
    obtain ⟨root, hr, _⟩ := FixedPath.exists_of_byStem h
    exact ⟨root, hr⟩

theorem lookup?_eq_none_iff :
    category.lookup? c r = none ↔ category = .callback ∨ category = .method := by
  cases category <;> simp [lookup?]

end Category

namespace Context

theorem resolveReference_of_lookup? (h : category.lookup? c r = some (.ok l)) :
    c.resolveReference r category content = .ok l := by
  rw [resolveReference, h]

theorem resolveReference_of_not_lookup? (h : ∀ l, category.lookup? c r ≠ some (.ok l)) :
    c.resolveReference r category content = Method.find c r.word content := by
  unfold resolveReference
  split
  · next l hl => exact absurd hl (h l)
  · rfl

theorem resolveReference_eq_ok_iff :
    c.resolveReference r category content = .ok l ↔
      category.lookup? c r = some (.ok l) ∨
        (∀ l', category.lookup? c r ≠ some (.ok l')) ∧ Method.find c r.word content = .ok l := by
  by_cases hl : ∃ l', category.lookup? c r = some (.ok l')
  · obtain ⟨l', hl⟩ := hl
    rw [resolveReference_of_lookup? hl, hl]
    simp
  · have hn := not_exists.mp hl
    rw [resolveReference_of_not_lookup? hn]
    simp [hn l, hn]

theorem resolveReference_eq_error_iff :
    c.resolveReference r category content = .error e ↔
      (∀ l, category.lookup? c r ≠ some (.ok l)) ∧
        (∀ l, Method.find c r.word content ≠ .ok l) ∧ e = .notFound r.word := by
  by_cases hl : ∃ l, category.lookup? c r = some (.ok l)
  · obtain ⟨l, hl⟩ := hl
    rw [resolveReference_of_lookup? hl]
    simp [hl]
  · have hn := not_exists.mp hl
    rw [resolveReference_of_not_lookup? hn, Method.find_eq_error_iff]
    exact (and_iff_right hn).symm

theorem resolveReference_of_workspace? (h : c.workspace? = none) :
    c.resolveReference r category content = Method.find c r.word content := by
  apply resolveReference_of_not_lookup?
  intro l hl
  obtain ⟨root, hr⟩ := Category.exists_workspace?_of_lookup? hl
  simp [h] at hr

/-- A resolution has the answer of the category's own lookup, which all categories but callbacks
and methods have, or else that of the lookup of a method. It fails just if both fail, always
with the word of the reference. Without a workspace every category is resolved as a method, and
to nothing but a place in the document. -/
theorem resolveReference_outcome (c : Context) (r : Reference) (category : Category)
    (content : Text) :
    (category.lookup? c r = none ↔ category = .callback ∨ category = .method) ∧
    (∀ l, c.resolveReference r category content = .ok l ↔
      category.lookup? c r = some (.ok l) ∨
        (∀ l', category.lookup? c r ≠ some (.ok l')) ∧ Method.find c r.word content = .ok l) ∧
    (∀ e, c.resolveReference r category content = .error e ↔
      (∀ l, category.lookup? c r ≠ some (.ok l)) ∧
        (∀ l, Method.find c r.word content ≠ .ok l) ∧ e = .notFound r.word) ∧
    (c.workspace? = none →
      c.resolveReference r category content = c.resolveReference r .method content ∧
      ∀ l, c.resolveReference r category content = .ok l → c.document? = some l.path) := by
  refine ⟨Category.lookup?_eq_none_iff, fun l => resolveReference_eq_ok_iff,
    fun e => resolveReference_eq_error_iff, fun hw => ⟨?_, fun l hl => ?_⟩⟩
  · rw [resolveReference_of_workspace? hw, resolveReference_of_workspace? hw]
  · rw [resolveReference_of_workspace? hw, Method.find, foundOr_eq_ok_iff] at hl
    exact Method.document?_of_find? hw hl

end Context

end RailsLookup
