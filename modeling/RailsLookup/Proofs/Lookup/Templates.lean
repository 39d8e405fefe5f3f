import Mathlib
import RailsLookup.Lookup.Template
import RailsLookup.Proofs.Disk.Listing
import RailsLookup.Proofs.Lookup.Failure
import RailsLookup.Proofs.Text.Decoding
import RailsLookup.Proofs.Text.Pieces
import RailsLookup.Proofs.Text.Reading

/-! # Where templates are found

A template is looked for at one path of the controller at hand and then among all files below the
views. These are told by their names, which end in any number of extensions, and by the directory
that the template is given with. The first of them in the order of the walk is the answer.
-/

namespace RailsLookup

namespace Template

open Pattern Computability

variable {c : Context} {views root p : Path} {template file d n t : Text} {extensions : List Text}
  {way : List Name}

/-- A file name of a template: after the name come any number of groups of word characters, and
then one of the extensions, each after a dot. Without extensions the last group is empty. -/
def Named (file : Text) (extensions : List Text) (t : Text) : Prop :=
  ∃ (groups : List Text) (e : Text), (∀ g ∈ groups, g ≠ [] ∧ ∀ c ∈ g, isWord c = true) ∧
    (e ∈ extensions ∨ extensions = [] ∧ e = []) ∧
    t = file ++ ((groups.map ('.' :: ·)).flatten ++ '.' :: e)

theorem spells_groups :
    (star (lit ['.'] ++ word)).Spells {s | ∃ groups : List Text,
      (∀ g ∈ groups, g ≠ [] ∧ ∀ c ∈ g, isWord c = true) ∧ s = (groups.map ('.' :: ·)).flatten} := by
  refine ((spells_lit ['.']).append (spells_some isWord)).star.congr fun s => ?_
  rw [Language.mem_kstar]
  constructor
  · rintro ⟨ss, rfl, hss⟩
    obtain ⟨groups, rfl⟩ : ss ∈ Set.range (List.map ('.' :: ·)) := by
      rw [Set.range_list_map]
      intro s hs
      obtain ⟨_, rfl, g, -, rfl⟩ := hss s hs
      exact ⟨g, rfl⟩
    refine ⟨groups, fun g hg => ?_, rfl⟩
    obtain ⟨_, rfl, g', hg', he⟩ := hss _ (List.mem_map_of_mem hg)
    rwa [← (List.cons.inj he).2]
  · rintro ⟨groups, hg, rfl⟩
    refine ⟨_, rfl, ?_⟩
    intro s hs
    obtain ⟨g, hm, rfl⟩ := List.mem_map.mp hs
    exact ⟨['.'], rfl, g, hg g hm, rfl⟩

theorem spells_extension (extensions : List Text) :
    (if extensions.isEmpty then lit [] else anyOf (extensions.map lit)).Spells
      {e | e ∈ extensions ∨ extensions = [] ∧ e = []} := by
  cases extensions with
  | nil =>
    refine (spells_lit []).congr fun e => ?_
    change e = [] ↔ e ∈ [] ∨ [] = [] ∧ e = []
    simp
  | cons e es => exact (spells_anyOf_lit (e :: es)).congr fun e' => by simp

theorem opens_fileName_iff :
    (fileName file extensions).opens t = true ↔ Named file extensions t := by
  have hname := ((((spells_lit file).append spells_groups).append (spells_lit ['.'])).append
    (spells_extension extensions))
  refine (hname.startsAt_append_finish_iff []).trans ?_
  constructor
  · rintro ⟨_, ⟨_, ⟨_, rfl, _, ⟨groups, hg, rfl⟩, rfl⟩, _, rfl, rfl⟩, e, he, rfl⟩
    exact ⟨groups, e, hg, he, by simp⟩
  · rintro ⟨groups, e, hg, he, rfl⟩
    exact ⟨_, ⟨_, ⟨_, rfl, _, ⟨groups, hg, rfl⟩, rfl⟩, _, rfl, rfl⟩, e, he, by simp⟩

def Parts (template d n : Text) : Prop :=
  '/' ∉ n ∧ (template = d ++ '/' :: n ∨ d = [] ∧ template = n)

theorem exists_parts (template : Text) : ∃ d n, Parts template d n := by
  induction template with
  | nil => exact ⟨[], [], by simp, .inr ⟨rfl, rfl⟩⟩
  | cons c t ih =>
    obtain ⟨d, n, hn, rfl | ⟨rfl, rfl⟩⟩ := ih
    · exact ⟨c :: d, n, hn, .inl rfl⟩
    · by_cases hc : c = '/'
      · exact ⟨[], t, hn, .inl (by rw [hc, List.nil_append])⟩
      · exact ⟨[], c :: t, List.not_mem_cons_of_ne_of_not_mem (Ne.symm hc) hn, .inr ⟨rfl, rfl⟩⟩

theorem Parts.getD_cutLast (h : Parts template d n) :
    (Text.cutLast ['/'] template).getD ([], template) = (d, n) := by
  obtain ⟨hn, rfl | ⟨rfl, rfl⟩⟩ := h
  · rw [Text.cutLast_append hn, Option.getD_some]
  · rw [Text.cutLast_eq_none hn, Option.getD_none]

theorem Parts.unique {d' n' : Text} (h : Parts template d n) (h' : Parts template d' n') :
    d = d' ∧ n = n' :=
  Prod.mk.inj (h.getD_cutLast.symm.trans h'.getD_cutLast)

/-- A file below the views that can be the template, by the names that lead to it: it has a name
of the template and lies in a directory that ends in the given one. -/
def Offers (c : Context) (views : Path) (template : Text) (way : List Name) : Prop :=
  c.disk.Visits c.settings.search views way ∧ ∃ d n t, Parts template d n ∧
    way.getLast? = some (Text.utf8 t) ∧ Named n c.settings.viewExtensions t ∧
    (d ≠ [] → (Path.ofText d).components <:+ (views.extend way.dropLast).components)

theorem parentEndsWith_extend {q : Path} (h : c.disk.Visits c.settings.search views way) :
    (views.extend way).parentEndsWith q = true ↔
      q.components <:+ (views.extend way.dropLast).components := by
  obtain ⟨v, hv, hf⟩ := h
  obtain ⟨place, hl, -, rfl⟩ := Visit.first?_eq_some_iff.mp hv
  rw [Path.parentEndsWith, List.isSuffixOf_iff_suffix,
    Path.dropLast_components_extend (Disk.bytes_ne_nil_of_lookup? hl) hf.isName hf.ne_nil]

theorem exists_listing (c : Context) (views : Path) (template : Text) :
    ∃ paths, anywhere? c views template = paths.head? ∧
      Listing views (Offers c views template) paths := by
  obtain ⟨d, n, hparts⟩ := exists_parts template
  let accepts := (fileName n c.settings.viewExtensions).opens
  let fits (path : Path) : Bool := d.isEmpty || path.parentEndsWith (.ofText d)
  refine ⟨(c.disk.files c.settings.search accepts views).filter fits, ?_, ?_⟩
  · rw [anywhere?, hparts.getD_cutLast, List.head?_filter]
  · refine ((c.disk.listing_visited c.settings.search accepts views).filter fits).congr ?_
    intro way
    rw [Offers, and_assoc]
    refine and_congr_right fun hvisit => ?_
    constructor
    · rintro ⟨⟨_, t, hlast, ht, hname⟩, hfits⟩
      rw [Utf8.decode?_eq_some_iff.mp ht] at hlast
      refine ⟨d, n, t, hparts, hlast, opens_fileName_iff.mp hname, fun hd => ?_⟩
      simp only [fits, Bool.or_eq_true, List.isEmpty_iff, hd, false_or] at hfits
      exact (parentEndsWith_extend hvisit).mp hfits
    · rintro ⟨d', n', t, hparts', hlast, hname, hd⟩
      obtain ⟨rfl, rfl⟩ := hparts.unique hparts'
      refine ⟨⟨_, t, hlast, Utf8.decode?_eq_some_iff.mpr rfl, opens_fileName_iff.mpr hname⟩, ?_⟩
      simp only [fits, Bool.or_eq_true, List.isEmpty_iff, parentEndsWith_extend hvisit]
      exact or_iff_not_imp_left.mpr hd

def ownPath (views : Path) (controller template : Text) : Path :=
  (views.join (.ofText controller)).join (.ofText (template ++ ".html.erb".toList))

/-- The document defines a controller, and the path of its own template is that of a file. -/
def Owns (c : Context) (views : Path) (template : Text) (p : Path) : Prop :=
  ∃ document controller, c.document? = some document ∧
    document.controllerName? = some controller ∧ p = ownPath views controller template ∧
    c.disk.isFile p = true

theorem ofController?_eq_some_iff :
    ofController? c views template = some p ↔ Owns c views template p := by
  simp only [ofController?, Option.bind_eq_bind, Option.bind_eq_some_iff, Option.pure_def,
    Option.some.injEq, Option.guard_eq_some']
  constructor
  · rintro ⟨controller, ⟨document, hd, hc⟩, _, hf, rfl⟩
    exact ⟨document, controller, hd, hc, rfl, hf⟩
  · rintro ⟨document, controller, hd, hc, rfl, hf⟩
    exact ⟨controller, ⟨document, hd, hc⟩, (), hf, rfl⟩

theorem ofController?_eq_none_iff :
    ofController? c views template = none ↔ ∀ p, ¬Owns c views template p := by
  simp only [Option.eq_none_iff_forall_ne_some, ne_eq, ofController?_eq_some_iff]

theorem names_ownPath {controller : Text} (hc : (Path.ofText controller).isAbsolute = false)
    (ht : (Path.ofText (template ++ ".html.erb".toList)).isAbsolute = false) :
    (ownPath views controller template).names =
      views.names ++ (Path.ofText controller).names ++
        (Path.ofText (template ++ ".html.erb".toList)).names := by
  rw [ownPath, Path.names_join_relative ht, Path.names_join_relative hc]

theorem find_eq (w line : Text) (hw : c.workspace? = some root) :
    find c w line = Context.foundOr (name w line)
      (((ofController? c (root.joinAll ["app", "views"]) (name w line)).or
        (anywhere? c (root.joinAll ["app", "views"]) (name w line))).map (⟨·, .start⟩)) := by
  rw [find, Context.workspace, hw]
  change Context.foundOr _ ((ofController? c _ _ <|> anywhere? c _ _).map _) = _
  rw [Option.orElse_eq_orElse, Option.orElse_eq_or]

/-- A template is found at its path among the views of the controller that the document defines,
if this is a file; otherwise it is the first file below the views that can be the template. It is
missing exactly if there is neither. -/
theorem find_own_or_first (c : Context) (w line : Text) (root : Path)
    (hw : c.workspace? = some root) :
    let views := root.joinAll ["app", "views"]
    let template := name w line
    (∀ l, find c w line = .ok l ↔ l.position = .start ∧
      (Owns c views template l.path ∨
        (∀ p, ¬Owns c views template p) ∧ ∃ way, Offers c views template way ∧
          l.path = views.extend way ∧ ∀ way', Offers c views template way' → ¬way' < way)) ∧
    (∀ e, find c w line = .error e ↔ e = .notFound template ∧
      (∀ p, ¬Owns c views template p) ∧ ∀ way, ¬Offers c views template way) ∧
    (∀ controller, (Path.ofText controller).isAbsolute = false →
      (Path.ofText (template ++ ".html.erb".toList)).isAbsolute = false →
      (ownPath views controller template).names =
        views.names ++ (Path.ofText controller).names ++
          (Path.ofText (template ++ ".html.erb".toList)).names) := by
  intro views template
  obtain ⟨paths, hpaths, hlisting⟩ := exists_listing c views template
  have hfind := find_eq w line hw
  rw [hpaths] at hfind
  refine ⟨fun l => ?_, fun e => ?_, fun controller => names_ownPath⟩
  · rw [hfind, Context.foundOr_eq_ok_iff, Option.map_eq_some_iff]
    simp only [Option.or_eq_some_iff, ofController?_eq_some_iff, ofController?_eq_none_iff,
      hlisting.head?_eq_some_iff]
    constructor
    · rintro ⟨p, hp, rfl⟩
      exact ⟨rfl, hp⟩
    · rintro ⟨hstart, hp⟩
      exact ⟨l.path, hp, by rw [← hstart]⟩
  · rw [hfind, Context.foundOr_eq_error_iff, Option.map_eq_none_iff, Option.or_eq_none_iff,
      ofController?_eq_none_iff, List.head?_eq_none_iff, hlisting.eq_nil_iff, and_comm]

def gallery : Context where
  disk := { entries := [(.ofStrings ["app"], .directory),
    (.ofStrings ["app", "views"], .directory),
    (.ofStrings ["app", "views", "admin"], .directory),
    (.ofStrings ["app", "views", "admin", "form.html.erb"], .file []),
    (.ofStrings ["app", "views", "posts"], .directory),
    (.ofStrings ["app", "views", "posts", "form.html.erb"], .file [])] }
  workspace? := some (.ofString "/")
  document? := some (.ofString "/app/controllers/posts_controller.rb")

theorem find_own_or_first_gallery :
    gallery.workspace? = some (.ofString "/") ∧
    Owns gallery ((Path.ofString "/").joinAll ["app", "views"])
      (name "form".toList "render :form".toList) (.ofString "/app/views/posts/form.html.erb") ∧
    find gallery "form".toList "render :form".toList =
      .ok ⟨.ofString "/app/views/posts/form.html.erb", .start⟩ := by
  have hw : gallery.workspace? = some (.ofString "/") := rfl
  have hname : name "form".toList "render :form".toList = "form".toList := by decide +kernel
  have howns : Owns gallery ((Path.ofString "/").joinAll ["app", "views"])
      (name "form".toList "render :form".toList) (.ofString "/app/views/posts/form.html.erb") := by
    rw [hname, ← ofController?_eq_some_iff]
    cbv
  exact ⟨hw, howns,
    ((find_own_or_first gallery "form".toList "render :form".toList _ hw).1 _).mpr
      ⟨rfl, .inl howns⟩⟩

/-- A template that is given as an absolute path is not found among the views of its controller. -/
theorem find_absolute_gallery :
    name "form".toList "render \"/form\"".toList = "/form".toList ∧
    gallery.document?.bind Path.controllerName? = some "posts".toList ∧
    gallery.disk.isFile (.ofString "/app/views/posts//form.html.erb") = true ∧
    find gallery "form".toList "render \"/form\"".toList =
      .ok ⟨.ofString "/app/views/admin/form.html.erb", .start⟩ := by
  have hfile : gallery.disk.isFile (.ofString "/app/views/posts//form.html.erb") = true := by cbv
  have hname : name "form".toList "render \"/form\"".toList = "/form".toList := by decide +kernel
  have hown : ofController? gallery ((Path.ofString "/").joinAll ["app", "views"])
      "/form".toList = none := by cbv
  have hfirst : anywhere? gallery ((Path.ofString "/").joinAll ["app", "views"])
      "/form".toList = some (.ofString "/app/views/admin/form.html.erb") := by cbv
  have hw : gallery.workspace? = some (.ofString "/") := rfl
  refine ⟨hname, by decide +kernel, hfile, ?_⟩
  rw [find_eq _ _ hw, hname, hown, hfirst, Option.none_or, Option.map_some, Context.foundOr]

end Template

end RailsLookup
