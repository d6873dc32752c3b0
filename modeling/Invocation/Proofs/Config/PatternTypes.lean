/-
  What types given by a pattern cast tokens to.

  The cast of such a type takes a part of the token: that of the first group,
  or that of the match if the group takes no part in it. So a token is not
  always cast to itself by a pattern without groups.

  * `Extent.textIn_eq_self_iff`: a part of a text is the whole text for its
    ends only; `Matcher.Searches.cast_eq_self_iff`: so a matcher without groups
    casts a token to itself just if the match is the whole token;
  * `Config.TypeEntry.cast_of_build`: the type of an entry whose pattern
    compiles accepts a token that holds a match, and casts it to the part of
    the first group or of the match;
  * `Config.TypeEntry.inner_match_cast`: a token that a pattern without groups
    does not cast to itself.
-/
import Invocation.Config.Build
import Invocation.Proofs.Pattern.Matcher
import Invocation.Standard

namespace Invocation

/-- The part between two positions is the whole text for its ends only. -/
theorem Extent.textIn_eq_self_iff {e : Extent} {text : String} (hle : e.first ≤ e.last)
    (hlast : e.last ≤ text.toList.length) : e.textIn text = text ↔ e = ⟨0, text.toList.length⟩ := by
  obtain ⟨first, last⟩ := e
  dsimp only at hle hlast
  rw [Extent.mk.injEq]
  constructor
  · intro h
    have hlength := congrArg (fun s => s.toList.length) h
    simp only [textIn, String.toList_ofList, List.length_take, List.length_drop] at hlength
    omega
  · rintro ⟨rfl, rfl⟩
    rw [textIn, List.drop_zero, Nat.sub_zero, List.take_length, String.ofList_toList]

/-! ## Casts of matchers -/

namespace Matcher

variable {m : Matcher} {occurs : String → Extent → Prop} {token : String} {c : Captures} {e : Extent}

/-- A matcher casts a token to the part of the first group, or else to that of the match. -/
theorem cast_of_captures? (hc : m.captures? token = some c) (hwhole : c 0 = some e) :
    m.cast token = .ok (.text (((c 1).getD e).textIn token)) := by
  simp only [cast, hc, hwhole]
  cases c 1 with
  | none => rfl
  | some g => rfl

namespace Searches

theorem cast_of_not_isMatch (h : m.Searches occurs) (hnone : m.isMatch token = false) :
    m.cast token = .error s!"'{token}' does not match" := by
  have hcaptures : m.captures? token = none := by
    rw [← Option.not_isSome_iff_eq_none, h.isSome_captures?, hnone]
    exact Bool.false_ne_true
  simp only [cast, hcaptures]

/-- In a token that holds a match one is found that begins first. -/
theorem exists_found (h : m.Searches occurs) (haccepts : m.isMatch token = true) :
    ∃ c e, m.captures? token = some c ∧ c 0 = some e ∧ occurs token e ∧
      ∀ e', occurs token e' → e.first ≤ e'.first := by
  obtain ⟨c, hc⟩ := Option.isSome_iff_exists.1 ((h.isSome_captures? token).trans haccepts)
  obtain ⟨e, hwhole, hoccurs, hfirst⟩ := h.leftmost hc
  exact ⟨c, e, hc, hwhole, hoccurs, hfirst⟩

/-- Without groups a token is cast to itself just if the match is the whole token. -/
theorem cast_eq_self_iff (h : m.Searches occurs) (hc : m.captures? token = some c) (hwhole : c 0 = some e)
    (hoccurs : occurs token e) (hgroups : m.groups = 0) :
    m.cast token = .ok (.text token) ↔ e = ⟨0, token.toList.length⟩ := by
  have hnone : c 1 = none := h.bounded hc (by omega)
  obtain ⟨hle, hlast⟩ := h.inside hoccurs
  rw [cast_of_captures? hc hwhole, hnone, Option.getD_none, ← Extent.textIn_eq_self_iff hle hlast]
  simp only [Except.ok.injEq, Data.text.injEq]

end Searches

end Matcher

/-! ## Types of entries -/

namespace Config.TypeEntry

/-- **What a type given by a pattern casts a token to.** An entry whose pattern compiles gives a type. The type
accepts the tokens that hold a match and refuses to cast the others. It casts a token that it accepts to the
part of the first group of the match that is found, which begins first, or to the part of the match if the
group takes no part in it. So without groups it casts a token to itself just if the match is the whole token,
as it always is if all matches are whole tokens. -/
theorem cast_of_build {libs : Libraries} {t : TypeEntry} {m : Matcher} {occurs : String → Extent → Prop}
    (hm : libs.compile t.pattern = .ok m) (hsearch : m.Searches occurs) :
    ∃ type, t.build libs = .ok type ∧ type.symbol = t.symbol ∧ ∀ token,
      (type.accepts token = true ↔ ∃ e, occurs token e) ∧
      (type.accepts token = false → type.cast token = .error s!"'{token}' does not match") ∧
      (type.accepts token = true → ∃ c e, m.captures? token = some c ∧ c 0 = some e ∧ occurs token e ∧
        (∀ e', occurs token e' → e.first ≤ e'.first) ∧
        (∀ g, c 1 = some g → type.cast token = .ok (.text (g.textIn token))) ∧
        (c 1 = none → type.cast token = .ok (.text (e.textIn token))) ∧
        (m.groups = 0 → (type.cast token = .ok (.text token) ↔ e = ⟨0, token.toList.length⟩))) ∧
      (type.accepts token = true → m.groups = 0 → (∀ e, occurs token e → e = ⟨0, token.toList.length⟩) →
        type.cast token = .ok (.text token)) := by
  have hbuild : t.build libs = .ok ⟨t.symbol, m.isMatch, m.cast⟩ := by simp only [build, hm]
  refine ⟨_, hbuild, rfl, fun token => ⟨hsearch.isMatch_iff, hsearch.cast_of_not_isMatch, fun haccepts => ?_,
    fun haccepts hgroups hall => ?_⟩⟩
  · obtain ⟨c, e, hc, hwhole, hoccurs, hfirst⟩ := hsearch.exists_found haccepts
    have hcast := Matcher.cast_of_captures? hc hwhole
    refine ⟨c, e, hc, hwhole, hoccurs, hfirst, fun g hg => ?_, fun hnone => ?_,
      hsearch.cast_eq_self_iff hc hwhole hoccurs⟩
    · exact hcast.trans (by rw [hg, Option.getD_some])
    · exact hcast.trans (by rw [hnone, Option.getD_none])
  · obtain ⟨c, e, hc, hwhole, hoccurs, -⟩ := hsearch.exists_found haccepts
    exact (hsearch.cast_eq_self_iff hc hwhole hoccurs hgroups).2 (hall e hoccurs)

/-- The pattern of words in small letters casts such a word to itself. -/
theorem anchored_match_cast :
    ∃ type, build .standard ⟨"word", "^[a-z]+$"⟩ = .ok type ∧ type.accepts "abc" = true ∧
      type.cast "abc" = .ok (.text "abc") := by
  have hp : Pattern.parse "^[a-z]+$" =
      some (.cat [.start, .repeat_ true 1 none (.chars ⟨[(97, 122)]⟩), .stop]) := by cbv
  have hm : Libraries.standard.compile "^[a-z]+$" = .ok (Pattern.matcher _) :=
    Libraries.compile_standard (Matcher.ofText?_eq_some_iff.2 ⟨_, hp, by cbv, rfl⟩)
  have hsearch := Pattern.searches_matcher (Pattern.wellFormed_of_parse hp)
  obtain ⟨type, hbuild, -, hcast⟩ := cast_of_build (t := ⟨"word", "^[a-z]+$"⟩) hm hsearch
  obtain ⟨haccepts, -, -, hwhole⟩ := hcast "abc"
  have habc : type.accepts "abc" = true := haccepts.2 (hsearch.isMatch_iff.1 (by cbv))
  exact ⟨type, hbuild, habc, hwhole habc rfl fun e he => he.eq_of_anchored (by cbv) (by cbv)⟩

/-- A pattern without groups that matches inside a token does not cast it to itself: the pattern `a` casts
`xay` to `a`. -/
theorem inner_match_cast :
    ¬ ∀ (libs : Libraries) (t : TypeEntry) (m : Matcher) (occurs : String → Extent → Prop) (type : CustomType)
      (token : String), libs.compile t.pattern = .ok m → m.Searches occurs → m.groups = 0 →
        t.build libs = .ok type → type.accepts token = true → type.cast token = .ok (.text token) := by
  intro h
  have hp : Pattern.parse "a" = some (.text ['a']) := by cbv
  have hm : Libraries.standard.compile "a" = .ok (Pattern.text ['a']).matcher :=
    Libraries.compile_standard (Matcher.ofText?_eq_some_iff.2 ⟨_, hp, by cbv, rfl⟩)
  have hbuild : build .standard ⟨"t", "a"⟩ =
      .ok ⟨"t", (Pattern.text ['a']).matcher.isMatch, (Pattern.text ['a']).matcher.cast⟩ := by
    simp only [build, hm]
  have hcast : (Pattern.text ['a']).matcher.cast "xay" = .ok (.text "a") := by cbv
  have hself := h .standard ⟨"t", "a"⟩ _ _ _ "xay" hm (Pattern.searches_matcher (Pattern.wellFormed_of_parse hp))
    rfl hbuild (by cbv)
  simpa using hcast.symm.trans hself

end Config.TypeEntry

end Invocation
