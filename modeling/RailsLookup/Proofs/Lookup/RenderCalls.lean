import Mathlib
import RailsLookup.Proofs.Lookup.Templates

/-! # Names in render calls

The template of a line is read off its first call of `render` with a name in quotation marks. An
earlier text may end in a part of the word `render`, as no call goes on from there. From the word
on there is one way to the first quotation mark, and the name goes up to the next one. A partial
has an underscore before the last part of its name.
-/

namespace RailsLookup

namespace Spot

variable {p : Char → Bool} {k : Spot → Bool} {b : Option Char} {w rest : Text} {c : Char}

theorem find?_along (hp : ∀ c ∈ w, p c = true)
    (hno : ∀ c ∈ w, ∀ b rest, k ⟨b, c :: rest⟩ = false) (hk : ∀ b, k ⟨b, c :: rest⟩ = true) :
    (along p b (w ++ c :: rest)).find? k = some ⟨w.getLast?.or b, c :: rest⟩ := by
  induction w generalizing b with
  | nil => exact List.find?_cons_of_pos (hk b)
  | cons a w ih =>
    obtain ⟨hpa, hp⟩ := List.forall_mem_cons.mp hp
    obtain ⟨hna, hno⟩ := List.forall_mem_cons.mp hno
    rw [List.cons_append, along, List.find?_cons_of_neg (by simp [hna]), if_pos hpa, ih hp hno]
    cases w <;> simp [List.getLast?_cons]

end Spot

namespace Pattern

variable {first body back : Pattern} {L : Language Char} {spot mid : Spot} {front t w rest : Text}
  {p : Char → Bool} {k : Spot → Bool} {b : Option Char} {c : Char}

theorem find?_run (hne : w ≠ []) (hp : ∀ c ∈ w, p c = true)
    (hno : ∀ c ∈ w, ∀ b rest, k ⟨b, c :: rest⟩ = false) (hk : ∀ b, k ⟨b, c :: rest⟩ = true) :
    ((one p ++ fewest p).ends ⟨b, w ++ c :: rest⟩).find? k =
      some ⟨w.getLast?.or b, c :: rest⟩ := by
  obtain ⟨a, w, rfl⟩ := List.exists_cons_of_ne_nil hne
  obtain ⟨hpa, hp⟩ := List.forall_mem_cons.mp hp
  have hends : (one p ++ fewest p).ends ⟨b, a :: w ++ c :: rest⟩ =
      Spot.along p (some a) (w ++ c :: rest) := by
    change ((one p).ends ⟨b, a :: (w ++ c :: rest)⟩).flatMap (fewest p).ends = _
    simp [ends, hpa]
  rw [hends, Spot.find?_along hp (List.forall_mem_cons.mp hno).2 hk]
  cases w <;> simp [List.getLast?_cons]

theorem between?_of_unique (hm : mid ∈ first.ends spot) (hu : ∀ e ∈ first.ends spot, e = mid) :
    between? first body back spot =
      ((body.ends mid).find? back.startsAt).map mid.textUntil := by
  rw [between?, List.eq_replicate_of_mem hu, ← List.head?_filter, ← List.head?_map]
  obtain ⟨n, hn⟩ := Nat.exists_eq_succ_of_ne_zero (List.length_pos_of_mem hm).ne'
  rw [hn, List.replicate_succ, List.flatMap_cons, List.head?_append]
  -- the other readings are of the same spot, so they give nothing if the first one does not
  cases hfirst : (((body.ends mid).filter back.startsAt).map mid.textUntil).head? with
  | some w => rfl
  | none =>
    rw [List.head?_eq_none_iff] at hfirst
    simp [List.flatMap_replicate, hfirst]

theorem exists_of_between? (hf : first.Spells L)
    (h : between? first body back (.between front t) = some w) :
    ∃ s ∈ L, ∃ rest, t = s ++ rest := by
  obtain ⟨e, he, -⟩ := List.mem_flatMap.mp (List.mem_of_mem_head? h)
  obtain ⟨s, hs, hr⟩ := (hf _ e).mp he
  exact ⟨s, hs, e.rest, hr.1⟩

theorem startsAt_quote_iff :
    quote.startsAt ⟨b, c :: rest⟩ = true ↔ c ∈ quotationMarks := by
  simp [quote, startsAt, meets, quotationMarks]

end Pattern

namespace Template

open Pattern Computability

variable {s s' pre front template post t t' line : Text} {q q' : Char}

def partialOptions : Language Char :=
  {s | ∃ gap gap' : Text, gap ∈ gaps ∧ gap' ∈ gaps ∧ s = "partial".toList ++ gap ++ ':' :: gap'}

/-- What may stand between `render` and a name: white space, a parenthesis, white space and the
option for a partial, all of them optional. -/
def arguments : Language Char :=
  {s | ∃ gap paren gap' option : Text, gap ∈ gaps ∧ (paren = [] ∨ paren = ['(']) ∧ gap' ∈ gaps ∧
    (option = [] ∨ option ∈ partialOptions) ∧ s = gap ++ paren ++ gap' ++ option}

theorem spells_partialOption :
    (lit "partial".toList ++ blanks ++ lit [':'] ++ blanks).Spells partialOptions := by
  have hparts := (((spells_lit "partial".toList).append spells_blanks).append
    (spells_lit [':'])).append spells_blanks
  refine hparts.congr fun s => ?_
  constructor
  · rintro ⟨_, ⟨_, ⟨_, rfl, gap, hg, rfl⟩, _, rfl, rfl⟩, gap', hg', rfl⟩
    exact ⟨gap, gap', hg, hg', by simp⟩
  · rintro ⟨gap, gap', hg, hg', rfl⟩
    exact ⟨_, ⟨_, ⟨_, rfl, gap, hg, rfl⟩, _, rfl, rfl⟩, gap', hg', by simp⟩

/-- White space that no parenthesis follows belongs to the white space after it. -/
theorem gaps_mul_eq_arguments :
    gaps * (({['(']} * gaps + {[]}) * (partialOptions + {[]})) = arguments := by
  ext s
  constructor
  · rintro ⟨gap, hg, _, ⟨_, ⟨_, rfl, gap', hg', rfl⟩ | rfl, option, ho, rfl⟩, rfl⟩
    · exact ⟨gap, ['('], gap', option, hg, .inr rfl, hg', ho.symm, by simp⟩
    · exact ⟨gap, [], [], option, hg, .inl rfl, nil_mem_gaps, ho.symm, by simp⟩
  · rintro ⟨gap, paren, gap', option, hg, rfl | rfl, hg', ho, rfl⟩
    · have hall : gap ++ gap' ∈ gaps := List.forall_mem_append.mpr ⟨hg, hg'⟩
      exact ⟨gap ++ gap', hall, _, ⟨[], .inr rfl, option, ho.symm, rfl⟩, by simp⟩
    · exact ⟨gap, hg, _, ⟨_, .inl ⟨_, rfl, gap', hg', rfl⟩, option, ho.symm, rfl⟩, by simp⟩

def openings : Language Char :=
  {t | ∃ s ∈ arguments, ∃ q ∈ quotationMarks, t = "render".toList ++ (s ++ [q])}

theorem spells_opening :
    (renderCall ++ optional (lit "partial".toList ++ blanks ++ lit [':'] ++ blanks) ++
      quote).Spells openings := by
  have hparen := ((spells_lit ['(']).append spells_blanks).optional
  have hparts := ((((spells_lit "render".toList).append spells_blanks).append hparen).append
    spells_partialOption.optional).append spells_quote
  have hcall : (renderCall ++ optional (lit "partial".toList ++ blanks ++ lit [':'] ++ blanks) ++
      quote).Spells ({"render".toList} * (arguments * quotes)) := by
    simpa only [renderCall, ← gaps_mul_eq_arguments, mul_assoc] using hparts
  refine hcall.congr fun t => ?_
  constructor
  · rintro ⟨_, rfl, _, ⟨s, hs, _, ⟨q, hq, rfl⟩, rfl⟩, rfl⟩
    exact ⟨s, hs, q, hq, rfl⟩
  · rintro ⟨s, hs, q, hq, rfl⟩
    exact ⟨_, rfl, _, ⟨s, hs, [q], ⟨q, hq, rfl⟩, rfl⟩, rfl⟩

theorem not_mem_quotationMarks (hs : s ∈ arguments) : ∀ c ∈ s, c ∉ quotationMarks := by
  have hgap {gap : Text} (hg : gap ∈ gaps) : ∀ c ∈ gap, c ∉ quotationMarks := by
    intro c hc hq
    have hblank := hg c hc
    simp only [quotationMarks, List.mem_cons, List.not_mem_nil, or_false] at hq
    rcases hq with rfl | rfl <;> cases hblank
  obtain ⟨gap, paren, gap', option, hg, hp, hg', ho, rfl⟩ := hs
  have hparen : ∀ c ∈ paren, c ∉ quotationMarks := by
    rcases hp with rfl | rfl <;> simp [quotationMarks]
  have hoption : ∀ c ∈ option, c ∉ quotationMarks := by
    rcases ho with rfl | ⟨g, g', hg, hg', rfl⟩
    · simp
    · have hpartial : ∀ c ∈ "partial".toList, c ∉ quotationMarks := by simp [quotationMarks]
      simp only [List.forall_mem_append, List.forall_mem_cons]
      exact ⟨⟨hpartial, hgap hg⟩, by decide, hgap hg'⟩
  simp only [List.forall_mem_append]
  exact ⟨⟨⟨hgap hg, hparen⟩, hgap hg'⟩, hoption⟩

/-- The first quotation mark ends what stands before a name. -/
theorem opening_unique (hs : s ∈ arguments) (hs' : s' ∈ arguments) (hq : q ∈ quotationMarks)
    (hq' : q' ∈ quotationMarks) (h : s ++ q :: t = s' ++ q' :: t') : s = s' ∧ q = q' ∧ t = t' := by
  have hrun {s : Text} (hs : s ∈ arguments) : ∀ c ∈ s, decide (c ∉ quotationMarks) = true :=
    fun c hc => decide_eq_true (not_mem_quotationMarks hs c hc)
  have hmark {q : Char} (hq : q ∈ quotationMarks) (t : Text) :
      (q :: t).head?.any (fun c => decide (c ∉ quotationMarks)) = false := by simp [hq]
  obtain ⟨rfl, hrest⟩ := Text.eq_of_run_append (hrun hs) (hrun hs') (hmark hq t) (hmark hq' t') h
  exact ⟨rfl, List.cons.inj hrest⟩

theorem head?_arguments_ne (hs : s ∈ arguments) (hq : q ∈ quotationMarks) (t : Text) :
    (s ++ q :: t).head? ≠ some 'e' := by
  have hgap {gap t : Text} (hg : gap ∈ gaps) (ht : t.head? ≠ some 'e') :
      (gap ++ t).head? ≠ some 'e' := by
    cases gap with
    | nil => exact ht
    | cons c gap =>
      rintro ⟨⟩
      exact absurd (hg 'e' List.mem_cons_self) (by decide)
  obtain ⟨gap, paren, gap', option, hg, hp, hg', ho, rfl⟩ := hs
  have hoption : (option ++ q :: t).head? ≠ some 'e' := by
    rcases ho with rfl | ⟨_, _, -, -, rfl⟩
    · rintro ⟨⟩
      exact absurd hq (by decide)
    · simp
  simp only [List.append_assoc]
  apply hgap hg
  rcases hp with rfl | rfl
  · rw [List.nil_append]
    exact hgap hg' hoption
  · simp

/-- A `render` that begins in `pre` and does not end there overlaps with the one after `pre` by the
letter that the word begins and ends with. -/
theorem head?_of_earlier_render
    (h : pre ++ ("render".toList ++ t) = front ++ ("render".toList ++ t'))
    (hlt : front.length < pre.length) (hpre : ¬"render".toList <:+: pre) :
    t'.head? = some 'e' := by
  obtain ⟨back, rfl, hback⟩ : ∃ back, pre = front ++ back ∧
      "render".toList ++ t' = back ++ ("render".toList ++ t) := by
    rcases List.append_eq_append_iff.mp h with ⟨back, rfl, -⟩ | ⟨back, hb, ht⟩
    · rw [List.length_append] at hlt
      omega
    · exact ⟨back, hb, ht⟩
  rcases List.append_eq_append_iff.mp hback with ⟨cut, rfl, -⟩ | ⟨cut, hcut, ht⟩
  · exact absurd ⟨front, cut, by simp⟩ hpre
  · have htails : ∀ x ∈ "render".toList.tails,
        x = [] ∨ x = ['r'] ∨ x = "render".toList ∨ x.head?.any (· != 'r') = true := by decide
    rcases htails cut ((List.mem_tails cut _).mpr ⟨back, hcut.symm⟩) with rfl | rfl | rfl | hhead
    · rw [List.append_nil] at hcut
      exact absurd ⟨front, [], by simp [hcut]⟩ hpre
    · obtain rfl : "ender".toList ++ t = t' := (List.cons.inj ht).2
      rfl
    · have hlen := congrArg List.length hcut
      rw [List.length_append] at hlen hlt
      omega
    · cases cut with
      | nil => cases hhead
      | cons c cut =>
        obtain ⟨rfl, -⟩ := List.cons.inj ht
        cases hhead

theorem quotedName?_of_call (hpre : ¬"render".toList <:+: pre) (hs : s ∈ arguments)
    (hq : q ∈ quotationMarks) (hq' : q' ∈ quotationMarks) (hne : template ≠ [])
    (ht : ∀ c ∈ template, c ∉ quotationMarks ∧ c ≠ '\n') :
    quotedName? (pre ++ ("render".toList ++ (s ++ q :: (template ++ q' :: post)))) =
      some template := by
  refine capture?_eq_some_iff.mpr ⟨pre, _, rfl, ?_, ?_⟩
  · have hopening : "render".toList ++ (s ++ [q]) ∈ openings := ⟨s, hs, q, hq, rfl⟩
    have hr := Spot.reads_between pre ("render".toList ++ (s ++ [q])) (template ++ q' :: post)
    have hline : "render".toList ++ (s ++ q :: (template ++ q' :: post)) =
        "render".toList ++ (s ++ [q]) ++ (template ++ q' :: post) := by simp
    rw [hline, between?_of_unique ((spells_opening _ _).mpr ⟨_, hopening, hr⟩)]
    · dsimp only [Spot.between]
      rw [find?_run hne, Option.map_some, Spot.Reads.textUntil_eq ⟨rfl, rfl⟩]
      · intro c hc
        simpa using (ht c hc).2
      · intro c hc b rest
        rw [← Bool.not_eq_true, startsAt_quote_iff]
        exact (ht c hc).1
      · intro b
        exact startsAt_quote_iff.mpr hq'
    · intro e he
      obtain ⟨_, ⟨s', hs', q'', hq'', rfl⟩, hr'⟩ := (spells_opening _ _).mp he
      obtain ⟨rest, hrest, rfl⟩ := hr'.eq_between
      obtain ⟨rfl, rfl, rfl⟩ : s = s' ∧ q = q'' ∧ template ++ q' :: post = rest := by
        apply opening_unique hs hs' hq hq''
        simpa using hrest
      rfl
  · intro front t' hline hlt
    rw [Option.eq_none_iff_forall_ne_some]
    intro w hw
    obtain ⟨_, ⟨s', hs', q'', hq'', rfl⟩, rest, rfl⟩ := exists_of_between? spells_opening hw
    have hcalls : pre ++ ("render".toList ++ (s ++ q :: (template ++ q' :: post))) =
        front ++ ("render".toList ++ (s' ++ q'' :: rest)) := by simpa using hline
    exact head?_arguments_ne hs' hq'' rest (head?_of_earlier_render hcalls hlt hpre)

theorem name_of_quotedName? (w : Text) (hname : quotedName? line = some template) :
    (¬"partial".toList <:+: line → name w line = template) ∧
    ("partial".toList <:+: line → ∃ front last, template = front ++ last ∧ '/' ∉ last ∧
      (front = [] ∨ ∃ d, front = d ++ ['/']) ∧ name w line = front ++ underscored last) := by
  have hwritten : (quotedName? line <|> symbolName? line).getD w = template := by
    rw [hname]
    rfl
  constructor
  · intro hplain
    rw [name, hwritten, if_neg (by rwa [Text.occurs_iff_infix])]
  · intro hpartial
    obtain ⟨d, n, hn, rfl | ⟨rfl, rfl⟩⟩ := exists_parts template
    · refine ⟨d ++ ['/'], n, by simp, hn, .inr ⟨d, rfl⟩, ?_⟩
      rw [name, hwritten, if_pos (Text.occurs_iff_infix.mpr hpartial), Text.cutLast_append hn]
      simp
    · refine ⟨[], template, rfl, hn, .inl rfl, ?_⟩
      rw [name, hwritten, if_pos (Text.occurs_iff_infix.mpr hpartial), Text.cutLast_eq_none hn]
      rfl

/-- A line names the template in quotation marks after its first `render`, as it is written. In a
line that mentions a partial the last part of the name, after the last slash, has an underscore in
front, which is added if the name is written without it. -/
theorem name_of_render_call (w pre s template post : Text) (q q' : Char)
    (hpre : ¬"render".toList <:+: pre) (hs : s ∈ arguments) (hq : q ∈ quotationMarks)
    (hq' : q' ∈ quotationMarks) (hne : template ≠ [])
    (ht : ∀ c ∈ template, c ∉ quotationMarks ∧ c ≠ '\n') :
    let line := pre ++ ("render".toList ++ (s ++ q :: (template ++ q' :: post)))
    (¬"partial".toList <:+: line → name w line = template) ∧
    ("partial".toList <:+: line → ∃ front last, template = front ++ last ∧ '/' ∉ last ∧
      (front = [] ∨ ∃ d, front = d ++ ['/']) ∧
      name w line = front ++ (if last.head? = some '_' then last else '_' :: last)) := by
  intro line
  have hname : quotedName? line = some template := quotedName?_of_call hpre hs hq hq' hne ht
  obtain ⟨hplain, hpartial⟩ := name_of_quotedName? w hname
  refine ⟨hplain, fun h => ?_⟩
  obtain ⟨front, last, htemplate, hlast, hfront, hw⟩ := hpartial h
  refine ⟨front, last, htemplate, hlast, hfront, ?_⟩
  simpa only [underscored, beq_iff_eq] using hw

theorem name_of_render_call_overlap :
    ¬"render".toList <:+: "rende".toList ∧ "( partial: ".toList ∈ arguments ∧
    name "form".toList "renderender( partial: 'shared/header') || render \"footer\"".toList =
      "shared/_header".toList := by
  have hpre : ¬"render".toList <:+: "rende".toList := fun h => absurd h.length_le (by decide)
  have hblank : [' '] ∈ gaps := List.forall_mem_singleton.mpr rfl
  have hs : "( partial: ".toList ∈ arguments :=
    ⟨[], ['('], [' '], "partial: ".toList, nil_mem_gaps, .inr rfl, hblank,
      .inr ⟨[], [' '], nil_mem_gaps, hblank, rfl⟩, rfl⟩
  have ht : ∀ c ∈ "shared/header".toList, c ∉ quotationMarks ∧ c ≠ '\n' := by
    simp [quotationMarks]
  refine ⟨hpre, hs, ?_⟩
  obtain ⟨front, last, hcut, hlast, hfront, hname⟩ :=
    (name_of_render_call "form".toList "rende".toList "( partial: ".toList "shared/header".toList
      ") || render \"footer\"".toList '\'' '\'' hpre hs (by decide) (by decide) (by decide) ht).2
      ⟨"renderender( ".toList, ": 'shared/header') || render \"footer\"".toList, rfl⟩
  have hparts : Parts "shared/header".toList "shared".toList "header".toList :=
    ⟨by decide, .inl rfl⟩
  rcases hfront with rfl | ⟨d, rfl⟩
  · rw [List.nil_append] at hcut
    exact absurd (hcut ▸ hlast) (by decide)
  · obtain ⟨rfl, rfl⟩ := hparts.unique ⟨hlast, .inl (by simpa using hcut)⟩
    exact hname

end Template

end RailsLookup
