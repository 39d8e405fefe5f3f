import Mathlib
import RailsLookup.Proofs.Disk.Listing
import RailsLookup.Proofs.Lookup.Failure

/-! # The tiers of a search for a constant

The files that may declare a constant are searched tier by tier: those of the kind's own directory
whose names mention it, the others there, and those of each fallback directory. In a tier they
come in the order of the walk. The first file that declares the constant is the answer, so names
only matter to which one is found, not to whether one is.
-/

namespace RailsLookup

def Context.Reaches (c : Context) (directory : Path) (way : List Name) : Prop :=
  ∃ v, Visit.first? c.disk c.settings.search directory = some v ∧
    v.Finds c.disk c.settings.search way ∧ LastAccepted (".rb".toList.isSuffixOf ·) way

theorem Context.listing_sources (c : Context) (directory : Path) :
    Listing directory (c.Reaches directory) (c.sources directory) :=
  (c.disk.listing_visited c.settings.search _ directory).congr fun way => by
    rw [Disk.Visits, Reaches, ← exists_and_right]
    simp only [and_assoc]

/-- A file to be searched: the number of its tier, the names that lead to it from the directory
that is walked, and its path. -/
structure Candidate where
  tier : Nat
  way : List Name
  path : Path

namespace Candidate

def Before (a b : Candidate) : Prop := a.tier < b.tier ∨ a.tier = b.tier ∧ a.way < b.way

theorem Before.asymm {a b : Candidate} (h : a.Before b) : ¬b.Before a := by
  rintro (h' | ⟨he, h'⟩)
  · rcases h with h | ⟨he, -⟩ <;> omega
  · rcases h with h | ⟨-, h⟩
    · omega
    · exact Std.lt_irrefl (List.lt_trans h h')

/-- The paths of the candidates that satisfy `found`, each candidate once and in order. -/
def Ranked (found : Candidate → Prop) (paths : List Path) : Prop :=
  ∃ rows : List Candidate, paths = rows.map path ∧ rows.Pairwise Before ∧ ∀ a, a ∈ rows ↔ found a

variable {found found' : Candidate → Prop} {paths paths' : List Path}

theorem Ranked.congr (h : Ranked found paths) (hf : ∀ a, found a ↔ found' a) :
    Ranked found' paths := by
  obtain ⟨rows, hp, hs, hm⟩ := h
  exact ⟨rows, hp, hs, fun a => (hm a).trans (hf a)⟩

theorem Ranked.nil : Ranked (fun _ => False) [] := ⟨[], rfl, .nil, by simp⟩

theorem Ranked.append (h : Ranked found paths) (h' : Ranked found' paths')
    (hlt : ∀ a b, found a → found' b → a.tier < b.tier) :
    Ranked (fun a => found a ∨ found' a) (paths ++ paths') := by
  obtain ⟨rows, rfl, hs, hm⟩ := h
  obtain ⟨rows', rfl, hs', hm'⟩ := h'
  refine ⟨rows ++ rows', List.map_append.symm, List.pairwise_append.mpr ⟨hs, hs', ?_⟩, fun a => ?_⟩
  · intro a ha b hb
    exact .inl (hlt a b ((hm a).mp ha) ((hm' b).mp hb))
  · rw [List.mem_append, hm, hm']

theorem ranked_of_listing {directory : Path} {reached : List Name → Prop}
    (h : Listing directory reached paths) (tier : Nat) :
    Ranked (fun a => a.tier = tier ∧ reached a.way ∧ a.path = directory.extend a.way) paths := by
  obtain ⟨ways, rfl, hs, hm⟩ := h
  refine ⟨ways.map fun way => ⟨tier, way, directory.extend way⟩, by simp, ?_, fun a => ?_⟩
  · exact List.pairwise_map.mpr (hs.imp fun hlt => .inr ⟨rfl, hlt⟩)
  · rw [List.mem_map]
    constructor
    · rintro ⟨way, hway, rfl⟩
      exact ⟨rfl, (hm way).mp hway, rfl⟩
    · rintro ⟨rfl, hway, hpath⟩
      exact ⟨a.way, (hm a.way).mpr hway, hpath ▸ rfl⟩

theorem Ranked.findSome?_eq_some_iff {α : Type} (h : Ranked found paths) {f : Path → Option α}
    {x : α} :
    paths.findSome? f = some x ↔
      ∃ a, found a ∧ f a.path = some x ∧ ∀ b, found b → b.Before a → f b.path = none := by
  obtain ⟨rows, rfl, hs, hm⟩ := h
  rw [List.findSome?_map, List.findSome?_eq_some_iff]
  constructor
  · rintro ⟨front, a, back, rfl, ha, hfront⟩
    refine ⟨a, (hm a).mp (by simp), ha, fun b hb hbefore => ?_⟩
    obtain ⟨-, hback, -⟩ := List.pairwise_append.mp hs
    -- what comes before the row in order does not stand after it in the list
    rcases List.mem_append.mp ((hm b).mpr hb) with hin | hin
    · exact hfront b hin
    · rcases List.mem_cons.mp hin with rfl | hin
      · exact absurd hbefore hbefore.asymm
      · exact absurd hbefore ((List.pairwise_cons.mp hback).1 b hin).asymm
  · rintro ⟨a, ha, hx, hnone⟩
    obtain ⟨front, back, rfl⟩ := List.append_of_mem ((hm a).mpr ha)
    obtain ⟨-, -, hlt⟩ := List.pairwise_append.mp hs
    refine ⟨front, a, back, rfl, hx, fun b hb => ?_⟩
    exact hnone b ((hm b).mp (List.mem_append_left _ hb)) (hlt b hb a List.mem_cons_self)

theorem Ranked.findSome?_eq_none_iff {α : Type} (h : Ranked found paths) {f : Path → Option α} :
    paths.findSome? f = none ↔ ∀ a, found a → f a.path = none := by
  obtain ⟨rows, rfl, -, hm⟩ := h
  simp only [List.findSome?_eq_none_iff, List.forall_mem_map, hm]

end Candidate

namespace ConstantKind

variable {kind : ConstantKind} {c : Context} {root directory : Path} {stem token : Text}
  {way : List Name}

def home (kind : ConstantKind) (root : Path) : Path := root.joinAll ["app", kind.directory]

/-- The last of the names, in small letters, has the stem in it, or the token if there is one. -/
def Mentions (stem token : Text) (way : List Name) : Prop :=
  ∃ n, way.getLast? = some n ∧ (stem <:+: (Utf8.decode n).lower ∨
    token ≠ [] ∧ token <:+: (Utf8.decode n).lower)

theorem mentionedBy_extend (h : c.Reaches directory way) :
    mentionedBy stem token (directory.extend way) = true ↔ Mentions stem token way := by
  obtain ⟨v, hv, hf, n, t, hn, -, -⟩ := h
  obtain ⟨place, hl, -, rfl⟩ := Visit.first?_eq_some_iff.mp hv
  have hname : (directory.extend way).fileName? = some n := by
    rw [Path.fileName?_extend (Disk.bytes_ne_nil_of_lookup? hl) hf.isName hf.ne_nil, hn]
  simp [mentionedBy, hname, Mentions, hn, Text.occurs_iff_infix]

/-- The files to be searched for a constant. -/
inductive Searches (kind : ConstantKind) (c : Context) (root : Path) (stem token : Text) :
    Candidate → Prop where
  | mentioning {way : List Name} : c.Reaches (kind.home root) way → Mentions stem token way →
      Searches kind c root stem token ⟨0, way, (kind.home root).extend way⟩
  | other {way : List Name} : c.Reaches (kind.home root) way → ¬Mentions stem token way →
      Searches kind c root stem token ⟨1, way, (kind.home root).extend way⟩
  | fallback {i : Nat} {name : Text} {way : List Name} :
      c.settings.fallbackDirectories[i]? = some name →
      c.Reaches (root.join (.ofText name)) way →
      Searches kind c root stem token ⟨i + 2, way, (root.join (.ofText name)).extend way⟩

def directories (kind : ConstantKind) (c : Context) (root : Path) : List Path :=
  kind.home root :: c.settings.fallbackDirectories.map fun name => root.join (.ofText name)

theorem ranked_fallback (c : Context) (root : Path) (names : List Text) (first : Nat) :
    Candidate.Ranked
      (fun a => ∃ i name, names[i]? = some name ∧ a.tier = first + i ∧
        c.Reaches (root.join (.ofText name)) a.way ∧
        a.path = (root.join (.ofText name)).extend a.way)
      (names.flatMap fun name => c.sources (root.join (.ofText name))) := by
  induction names generalizing first with
  | nil => exact Candidate.Ranked.nil.congr (by simp)
  | cons name names ih =>
    rw [List.flatMap_cons]
    have hhead := Candidate.ranked_of_listing (c.listing_sources (root.join (.ofText name))) first
    refine (hhead.append (ih (first + 1)) ?_).congr fun a => ?_
    · rintro a b ⟨ha, -⟩ ⟨i, -, -, hb, -⟩
      omega
    · constructor
      · rintro (⟨ht, hr, hp⟩ | ⟨i, name, hi, ht, hr, hp⟩)
        · exact ⟨0, _, rfl, ht, hr, hp⟩
        · exact ⟨i + 1, name, hi, by omega, hr, hp⟩
      · rintro ⟨_ | i, name', hi, ht, hr, hp⟩
        · obtain rfl := Option.some.inj hi
          exact .inl ⟨ht, hr, hp⟩
        · exact .inr ⟨i, name', hi, by omega, hr, hp⟩

theorem ranked_searched (kind : ConstantKind) (c : Context) (root : Path) (stem token : Text) :
    Candidate.Ranked (Searches kind c root stem token) (kind.searched c root stem token) := by
  have hown := c.listing_sources (kind.home root)
  have hmentioning : Listing (kind.home root)
      (fun way => c.Reaches (kind.home root) way ∧ Mentions stem token way)
      ((c.sources (kind.home root)).filter (mentionedBy stem token)) :=
    (hown.filter _).congr fun way => and_congr_right mentionedBy_extend
  have hothers : Listing (kind.home root)
      (fun way => c.Reaches (kind.home root) way ∧ ¬Mentions stem token way)
      ((c.sources (kind.home root)).filter fun p => !mentionedBy stem token p) := by
    refine (hown.filter _).congr fun way => and_congr_right fun hr => ?_
    rw [← mentionedBy_extend hr, Bool.not_eq_true', Bool.not_eq_true]
  have hfallback := ranked_fallback c root c.settings.fallbackDirectories 2
  have hsearched : kind.searched c root stem token =
      (c.sources (kind.home root)).filter (mentionedBy stem token) ++
        (c.sources (kind.home root)).filter (fun p => !mentionedBy stem token p) ++
        c.settings.fallbackDirectories.flatMap fun name =>
          c.sources (root.join (.ofText name)) := by
    rw [searched, List.partition_eq_filter_filter]
    rfl
  rw [hsearched]
  refine (((Candidate.ranked_of_listing hmentioning 0).append
    (Candidate.ranked_of_listing hothers 1) ?_).append hfallback ?_).congr fun a => ?_
  · rintro a b ⟨ha, -⟩ ⟨hb, -⟩
    omega
  · rintro a b (⟨ha, -⟩ | ⟨ha, -⟩) ⟨i, -, -, hb, -⟩ <;> omega
  · obtain ⟨tier, way, path⟩ := a
    dsimp only
    constructor
    · rintro ((⟨rfl, ⟨hr, hm⟩, rfl⟩ | ⟨rfl, ⟨hr, hm⟩, rfl⟩) | ⟨i, name, hi, rfl, hr, rfl⟩)
      · exact .mentioning hr hm
      · exact .other hr hm
      · rw [Nat.add_comm]
        exact .fallback hi hr
    · intro h
      cases h with
      | mentioning hr hm => exact .inl (.inl ⟨rfl, ⟨hr, hm⟩, rfl⟩)
      | other hr hm => exact .inl (.inr ⟨rfl, ⟨hr, hm⟩, rfl⟩)
      | @fallback i name _ hi hr => exact .inr ⟨i, name, hi, Nat.add_comm i 2, hr, rfl⟩

theorem forall_searches_iff (P : Path → Prop) :
    (∀ a, Searches kind c root stem token a → P a.path) ↔
      ∀ directory ∈ kind.directories c root, ∀ way, c.Reaches directory way →
        P (directory.extend way) := by
  constructor
  · intro h directory hd way hr
    rcases List.mem_cons.mp hd with rfl | hd
    · by_cases hm : Mentions stem token way
      · exact h _ (.mentioning hr hm)
      · exact h _ (.other hr hm)
    · obtain ⟨name, hname, rfl⟩ := List.mem_map.mp hd
      obtain ⟨i, hi⟩ := List.mem_iff_getElem?.mp hname
      exact h _ (.fallback hi hr)
  · intro h a ha
    cases ha with
    | mentioning hr _ | other hr _ => exact h _ List.mem_cons_self _ hr
    | fallback hi hr =>
      exact h _ (List.mem_cons_of_mem _ (List.mem_map_of_mem (List.mem_of_getElem? hi))) _ hr

/-- A constant is found in the first file, tier by tier and in the order of the walk, that declares
it. It is missing exactly if no file that the walks reach declares it, so its being found does not
depend on the names of the files. -/
theorem find_first_tier (kind : ConstantKind) (c : Context) (qualified : Text) (root : Path)
    (hw : c.workspace? = some root) :
    let scope := (Namespace.split qualified).1
    let leaf := kind.constantName (Namespace.split qualified).2
    let stem := Inflection.snakeCase (Text.stripSuffix leaf kind.ending.toList)
    let token := ['_'].intercalate (Namespace.pieces (Text.lower scope))
    let declared := c.disk.declaration? leaf scope
    (∀ l, kind.find c qualified = .ok l ↔
      ∃ a, Searches kind c root stem token a ∧ declared a.path = some l ∧
        ∀ b, Searches kind c root stem token b → b.Before a → declared b.path = none) ∧
    (∀ e, kind.find c qualified = .error e ↔
      e = .notFound qualified ∧ ∀ directory ∈ kind.directories c root, ∀ way,
        c.Reaches directory way → declared (directory.extend way) = none) ∧
    ((∃ l, kind.find c qualified = .ok l) ↔
      ∃ directory ∈ kind.directories c root, ∃ way,
        c.Reaches directory way ∧ (declared (directory.extend way)).isSome) := by
  intro scope leaf stem token declared
  have hfind : kind.find c qualified = Context.foundOr qualified
      ((kind.searched c root stem token).findSome? declared) := by
    rw [find, Context.workspace, hw]
    rfl
  have hranked := ranked_searched kind c root stem token
  have herror (e : LookupError) : kind.find c qualified = .error e ↔
      e = .notFound qualified ∧ ∀ directory ∈ kind.directories c root, ∀ way,
        c.Reaches directory way → declared (directory.extend way) = none := by
    rw [hfind, Context.foundOr_eq_error_iff, hranked.findSome?_eq_none_iff, and_comm]
    exact and_congr_right' (forall_searches_iff fun path => declared path = none)
  refine ⟨fun l => ?_, herror, ?_⟩
  · rw [hfind, Context.foundOr_eq_ok_iff, hranked.findSome?_eq_some_iff]
  · constructor
    · rintro ⟨l, hl⟩
      by_contra hnone
      have hmissing : kind.find c qualified = .error (.notFound qualified) := by
        refine (herror _).mpr ⟨rfl, fun directory hd way hr => ?_⟩
        rw [← Option.not_isSome_iff_eq_none]
        exact fun hsome => hnone ⟨directory, hd, way, hr, hsome⟩
      rw [hl] at hmissing
      cases hmissing
    · rintro ⟨directory, hd, way, hr, hsome⟩
      cases hf : kind.find c qualified with
      | ok l => exact ⟨l, rfl⟩
      | error e =>
        rw [((herror e).mp hf).2 directory hd way hr] at hsome
        cases hsome

/-- A workspace at the root with three declarations of one helper. The file whose name mentions it
comes after another one of the directory. -/
def office : Context where
  disk := { entries := [(.ofStrings ["app"], .directory),
    (.ofStrings ["app", "helpers"], .directory),
    (.ofStrings ["app", "helpers", "admin"], .directory),
    (.ofStrings ["app", "helpers", "admin", "table.rb"],
      .file (Text.utf8 "module Admin::ReportHelper\nend\n".toList)),
    (.ofStrings ["app", "helpers", "old_Report.rb"],
      .file (Text.utf8 "# moved\nmodule ReportHelper\nend\n".toList)),
    (.ofStrings ["lib"], .directory),
    (.ofStrings ["lib", "report.rb"], .file (Text.utf8 "module ReportHelper\nend\n".toList))] }
  workspace? := some (.ofString "/")

theorem find_first_tier_office :
    let l : Location := ⟨.ofString "/app/helpers/old_Report.rb", ⟨1, 0⟩⟩
    office.workspace? = some (.ofString "/") ∧
    helper.find office "Admin::ReportHelper".toList = .ok l ∧
    ∃ a, Searches helper office (.ofString "/") "report".toList "admin".toList a ∧
      office.disk.declaration? "ReportHelper".toList "Admin".toList a.path = some l ∧
      ∀ b, Searches helper office (.ofString "/") "report".toList "admin".toList b → b.Before a →
        office.disk.declaration? "ReportHelper".toList "Admin".toList b.path = none := by
  have hw : office.workspace? = some (.ofString "/") := rfl
  have h : helper.find office "Admin::ReportHelper".toList =
      .ok ⟨.ofString "/app/helpers/old_Report.rb", ⟨1, 0⟩⟩ := by cbv
  have hsplit : Namespace.split "Admin::ReportHelper".toList =
      ("Admin".toList, "ReportHelper".toList) := by decide
  have hleaf : helper.constantName "ReportHelper".toList = "ReportHelper".toList := by decide
  have hstem : Inflection.snakeCase (Text.stripSuffix "ReportHelper".toList
      helper.ending.toList) = "report".toList := by decide +kernel
  have htoken : ['_'].intercalate (Namespace.pieces (Text.lower "Admin".toList)) =
      "admin".toList := by decide +kernel
  have hfirst := ((find_first_tier helper office "Admin::ReportHelper".toList _ hw).1 _).mp h
  simp only [hsplit, hleaf, hstem, htoken] at hfirst
  exact ⟨hw, h, hfirst⟩

end ConstantKind

end RailsLookup
