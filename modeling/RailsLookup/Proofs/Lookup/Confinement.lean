import Mathlib
import RailsLookup.Proofs.Inflection.RoundTrip
import RailsLookup.Proofs.Lookup.Homes
import RailsLookup.Proofs.Text.Encoding

/-! # Lookups stay in their directories

Neither the word of a reference nor its qualifiers have a slash, and none comes in when an ending
is taken off, a singular is made or letters become small. So models, controllers and services are
found in the directory of their kind or as many directories below it as there are qualifiers.
-/

namespace RailsLookup

open Disk Inflection

namespace Text

variable {t : Text}

theorem utf8_intercalate (names : List Text) :
    utf8 (['/'].intercalate names) = [Path.slash].intercalate (names.map utf8) := by
  induction names with
  | nil => rfl
  | cons n names ih =>
    cases names with
    | nil => simp
    | cons m names =>
      have happend : utf8 (n ++ '/' :: ['/'].intercalate (m :: names)) =
          n.utf8 ++ Path.slash :: utf8 (['/'].intercalate (m :: names)) := utf8_append _ _
      simpa [ih] using happend

theorem isName_utf8 (hne : t ≠ []) (hs : '/' ∉ t) (hdot : t ≠ ['.']) (hup : t ≠ ['.', '.']) :
    isName t.utf8 = true := by
  have hinj {s : Text} (h : t.utf8 = s.utf8) : t = s := by
    rw [← Utf8.decode_utf8 t, h, Utf8.decode_utf8]
  rw [isName_iff]
  refine ⟨fun h => hne (utf8_eq_nil_iff.mp h), fun h => hdot (hinj h), fun h => hup (hinj h), ?_⟩
  intro h
  exact hs (mem_of_mem_utf8 (by decide) h)

end Text

theorem Inflection.not_mem_singularize {t : Text} {x : Char} (h : x ∉ t) (hx : x ≠ 'y') :
    x ∉ singularize t := by
  rw [singularize]
  split
  · simp only [List.mem_append, List.mem_singleton, hx, or_false]
    exact fun hm => h (Text.stripSuffix_subset t _ hm)
  · exact fun hm => h (Text.stripSuffix_subset t _ hm)

namespace FixedPath

variable {c : Context} {d : Disk} {w n name file : Text} {scope : List Text} {root path : Path}
  {directory : String} {l : Location}

theorem isName_snakeCase (hne : n ≠ []) (hw : ∀ c ∈ n, isWord c = true) :
    isName (snakeCase n).utf8 = true := by
  have hslash : '/' ∉ n := fun h => absurd (hw _ h) (by decide)
  have hdot : '.' ∉ snakeCase n :=
    not_mem_snakeCase (fun h => absurd (hw _ h) (by decide)) (by decide) (by decide)
  apply Text.isName_utf8 (snakeCase_ne_nil hne)
  · exact not_mem_snakeCase hslash (by decide) (by decide)
  · intro he
    simp [he] at hdot
  · intro he
    simp [he] at hdot

/-- Even if nothing is left of a word, the ending of its file makes a name. -/
theorem isName_file {ending : Text} (hn : '/' ∉ name) (he : '/' ∉ ending)
    (hrb : ".rb".toList <:+ ending) : isName (Text.utf8 (name ++ ending)) = true := by
  have hlen : 3 ≤ (name ++ ending).length :=
    (hrb.trans (List.suffix_append name ending)).length_le
  apply Text.isName_utf8
  · intro h
    simp [h] at hlen
  · simp [hn, he]
  · intro h
    simp [h] at hlen
  · intro h
    simp [h] at hlen

theorem exists_extend_of_mem_candidates (hs : scope = [] ∨ Namespace.IsChain scope)
    (h : path ∈ candidates root directory scope file) :
    ∃ ns, (ns = [] ∨ ns = scope.map fun n => (snakeCase n).utf8) ∧
      (∀ n ∈ ns, isName n = true) ∧
      path = (root.joinAll ["app", directory]).extend (ns ++ [file.utf8]) := by
  rcases hs with rfl | hs
  · obtain rfl : path = flatHome root directory file := List.mem_singleton.mp h
    exact ⟨[], .inl rfl, by simp, rfl⟩
  · rw [candidates_eq hs.ne_nil hs.not_mem_colon] at h
    simp only [List.mem_cons, List.not_mem_nil, or_false] at h
    rcases h with rfl | rfl
    · let ns := scope.map fun n => (snakeCase n).utf8
      have hname : ∀ n ∈ ns, isName n = true := by
        simp only [ns, List.forall_mem_map]
        exact fun n hn => isName_snakeCase (hs.isName n hn).1 (hs.isName n hn).2
      refine ⟨ns, .inr rfl, hname, ?_⟩
      have hne : ns ≠ [] := by simpa [ns] using hs.ne_nil
      have hutf8 : Text.utf8 (['/'].intercalate (scope.map snakeCase)) =
          [Path.slash].intercalate ns := by
        rw [Text.utf8_intercalate, List.map_map]
        rfl
      calc namespaceHome root directory scope file
        _ = ((root.joinAll ["app", directory]).join ⟨[Path.slash].intercalate ns⟩).join
            (.ofText file) := by rw [namespaceHome, Path.ofText, hutf8]
        _ = ((root.joinAll ["app", directory]).extend ns).join (.ofText file) := by
          rw [Path.join_intercalate hne hname]
        _ = (root.joinAll ["app", directory]).extend (ns ++ [file.utf8]) := by
          simp [Path.extend, Path.ofText]
    · exact ⟨[], .inl rfl, by simp, rfl⟩

theorem path_of_locateClass? (h : locateClass? d name path = some l) : l.path = path := by
  obtain ⟨t, -, rfl⟩ := Option.map_eq_some_iff.mp h
  rfl

theorem not_mem_modelNames (hs : '/' ∉ w) (h : name ∈ modelNames w) : '/' ∉ name := by
  have hsingular : '/' ∉ singularize w := not_mem_singularize hs (by decide)
  simp only [modelNames, List.mem_eraseDups, List.mem_cons, List.not_mem_nil, or_false] at h
  rcases h with rfl | rfl
  · exact Text.not_mem_lower hsingular (by decide)
  · exact not_mem_snakeCase hsingular (by decide) (by decide)

theorem not_mem_stem (hs : '/' ∉ w) (ending : Text) : '/' ∉ snakeCase (w.stripSuffix ending) :=
  not_mem_snakeCase (fun h => hs (Text.stripSuffix_subset w ending h)) (by decide) (by decide)

end FixedPath

namespace Category

open FixedPath

variable {c : Context} {r : Reference} {category : Category} {directory : String} {root : Path}
  {l : Location}

/-- The directory of a category whose files are looked for by their names. -/
def home? : Category → Option String
  | model => some "models"
  | controller => some "controllers"
  | service => some "services"
  | helper | mailer | view | callback | method => none

theorem exists_file_of_lookup? (hs : '/' ∉ r.word) (hd : category.home? = some directory)
    (h : category.lookup? c r = some (.ok l)) :
    ∃ root file, c.workspace? = some root ∧ isName file.utf8 = true ∧
      l.path ∈ FixedPath.candidates root directory r.scope file := by
  cases category <;> simp only [home?, Option.some.injEq, reduceCtorEq] at hd <;> subst hd
  case model =>
    obtain ⟨root, name, path, hw, hn, hp, h⟩ := exists_candidate_of_model (Option.some.inj h)
    refine ⟨root, _, hw, ?_, path_of_locateClass? h ▸ hp⟩
    exact isName_file (not_mem_modelNames hs hn) (by decide) (by decide)
  case controller =>
    obtain ⟨root, path, hw, hp, h⟩ := exists_candidate_of_controller (Option.some.inj h)
    refine ⟨root, _, hw, ?_, path_of_locateClass? h ▸ hp⟩
    exact isName_file (not_mem_stem hs _) (by decide) (by decide)
  case service =>
    obtain ⟨root, path, hw, hp, -, rfl⟩ := exists_candidate_of_service (Option.some.inj h)
    refine ⟨root, _, hw, ?_, hp⟩
    exact isName_file (not_mem_stem hs _) (by decide) (by decide)

theorem bytes_home_ne_nil (hd : category.home? = some directory) (root : Path) :
    (root.joinAll ["app", directory]).bytes ≠ [] := by
  have hbytes : (Path.ofString directory).isAbsolute = false ∧
      (Path.ofString directory).bytes ≠ [] := by
    cases category <;> simp only [home?, Option.some.injEq, reduceCtorEq] at hd <;> subst hd <;>
      decide
  change ((root.join (.ofString "app")).join (.ofString directory)).bytes ≠ []
  rw [Path.bytes_join hbytes.1]
  exact List.append_ne_nil_of_right_ne_nil _ hbytes.2

/-- The model, controller or service that a reference is looked up as is found in a file of its
kind's directory or of the directory of its namespace below, which is one level deep for each
qualifier. Whatever is added to the directory is a proper name. -/
theorem lookup?_stays_in_home (c : Context) (root : Path) (content : Text) (position : Position)
    (r : Reference) (category : Category) (directory : String) (l : Location)
    (hw : c.workspace? = some root) (hr : Reference.at? content position = some r)
    (hd : category.home? = some directory) (h : category.lookup? c r = some (.ok l)) :
    let home := root.joinAll ["app", directory]
    ∃ (ns : List Name) (file : Name),
      (ns = [] ∨ ns = r.scope.map fun n => (snakeCase n).utf8) ∧
      (∀ n ∈ ns ++ [file], n ≠ [] ∧ n ≠ Path.dot ∧ n ≠ Path.dotDot ∧ Path.slash ∉ n) ∧
      l.path = home.extend (ns ++ [file]) ∧
      l.path.components = home.components ++ (ns ++ [file]).map .name := by
  intro home
  have hslash : '/' ∉ r.word := fun hm =>
    absurd (Reference.isIdentifier_of_mem_word hr _ hm) (by decide)
  have hscope : r.scope = [] ∨ Namespace.IsChain r.scope :=
    (Reference.scope_cases hr).imp_right And.left
  obtain ⟨_, file, hr, hfile, hm⟩ := exists_file_of_lookup? hslash hd h
  obtain rfl := Option.some.inj (hw.symm.trans hr)
  obtain ⟨ns, hns, hnames, hpath⟩ := exists_extend_of_mem_candidates hscope hm
  have hall : ∀ n ∈ ns ++ [file.utf8], isName n = true :=
    List.forall_mem_append.mpr ⟨hnames, List.forall_mem_singleton.mpr hfile⟩
  refine ⟨ns, file.utf8, hns, fun n hn => isName_iff.mp (hall n hn), hpath, ?_⟩
  rw [hpath, Path.components_extend (bytes_home_ne_nil hd root) hall]

def alphabet : Context where
  disk := { entries := [(.ofStrings ["app"], .directory),
    (.ofStrings ["app", "models"], .directory),
    (.ofStrings ["app", "models", "small_caps"], .directory),
    (.ofStrings ["app", "models", "small_caps", ".rb"],
      .file (Text.utf8 "class SmallCaps::S\nend\n".toList))] }
  workspace? := some (.ofString "/")

theorem lookup?_stays_in_home_alphabet :
    ∃ r l, Reference.at? "SmallCaps::s\n".toList ⟨0, 12⟩ = some r ∧
      alphabet.workspace? = some (.ofString "/") ∧ model.home? = some "models" ∧
      model.lookup? alphabet r = some (.ok l) ∧
      ∃ (ns : List Name) (file : Name),
        (ns = [] ∨ ns = r.scope.map fun n => (snakeCase n).utf8) ∧
        (∀ n ∈ ns ++ [file], n ≠ [] ∧ n ≠ Path.dot ∧ n ≠ Path.dotDot ∧ Path.slash ∉ n) ∧
        l.path = ((Path.ofString "/").joinAll ["app", "models"]).extend (ns ++ [file]) ∧
        l.path.components = ((Path.ofString "/").joinAll ["app", "models"]).components ++
          (ns ++ [file]).map .name := by
  let r : Reference := ⟨"s".toList, "SmallCaps::s".toList, 12, ["SmallCaps".toList]⟩
  let l : Location := ⟨.ofString "/app/models/small_caps/.rb", .start⟩
  have hr : Reference.at? "SmallCaps::s\n".toList ⟨0, 12⟩ = some r := by decide +kernel
  have hw : alphabet.workspace? = some (.ofString "/") := rfl
  have h : model.lookup? alphabet r = some (.ok l) := by cbv
  exact ⟨r, l, hr, hw, rfl, h,
    lookup?_stays_in_home alphabet _ _ _ r model _ l hw hr rfl h⟩

end Category

end RailsLookup
