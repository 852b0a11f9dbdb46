import VoiceCampaign.Model.AuditReader
import Mathlib.Data.List.Infix

/-!
# The patterns of the audit reader

What the escaping makes of a text, how the pattern around it is read, and what that pattern matches: the
reason filter is a search for a literal substring.
-/

namespace VoiceCampaign

theorem replaceChar_append (old : Char) (new a b : List Char) :
    replaceChar old new (a ++ b) = replaceChar old new a ++ replaceChar old new b := List.flatMap_append

/-- A meta-character with its backslash, any other character as it is. -/
def escapeChar (c : Char) : List Char := if isLikeMeta c = true then ['\\', c] else [c]

/-- The three replaces do not get in each other's way. -/
theorem escapeLike_eq (text : List Char) : escapeLike text = text.flatMap escapeChar := by
  induction text with
  | nil => rfl
  | cons c rest ih =>
      have hsplit : escapeLike (c :: rest) = escapeLike [c] ++ escapeLike rest := by
        show escapeLike ([c] ++ rest) = _
        rw [escapeLike, replaceChar_append, replaceChar_append, replaceChar_append]
        rfl
      have hone : escapeLike [c] = escapeChar c := by
        by_cases hbackslash : c = '\\'
        · rw [hbackslash]
          rfl
        · by_cases hpercent : c = '%'
          · rw [hpercent]
            rfl
          · by_cases hunderscore : c = '_'
            · rw [hunderscore]
              rfl
            · simp [escapeLike, replaceChar, escapeChar, isLikeMeta, hbackslash, hpercent, hunderscore]
      rw [hsplit, hone, ih, List.flatMap_cons]

theorem likeTokens_plain {c : Char} (h : isLikeMeta c = false) (rest : List Char) :
    likeTokens (c :: rest) = (likeTokens rest).map (.literal c :: ·) := by
  have hbackslash : c ≠ '\\' := by
    rintro rfl
    cases h
  have hpercent : c ≠ '%' := by
    rintro rfl
    cases h
  have hunderscore : c ≠ '_' := by
    rintro rfl
    cases h
  rw [likeTokens]
  · cases likeTokens rest <;> rfl
  all_goals simp_all

/-- An escaped text is read literally. -/
theorem likeTokens_escaped (text rest : List Char) :
    likeTokens (text.flatMap escapeChar ++ rest) = (likeTokens rest).map (text.map .literal ++ ·) := by
  induction text with
  | nil =>
      rw [List.flatMap_nil, List.nil_append]
      cases likeTokens rest <;> rfl
  | cons c tail ih =>
      have hcons : likeTokens (escapeChar c ++ (tail.flatMap escapeChar ++ rest)) =
          (likeTokens (tail.flatMap escapeChar ++ rest)).map (.literal c :: ·) := by
        cases hmeta : isLikeMeta c with
        | true =>
            rw [escapeChar, if_pos hmeta, List.cons_append, List.singleton_append, likeTokens]
            cases likeTokens (tail.flatMap escapeChar ++ rest) <;> rfl
        | false =>
            rw [escapeChar, if_neg (by rw [hmeta]; exact nofun), List.singleton_append]
            exact likeTokens_plain hmeta _
      rw [List.flatMap_cons, List.append_assoc, hcons, ih]
      cases likeTokens rest <;> rfl

/-- The pattern is the text, with anything before and after it. -/
theorem likeTokens_contains (text : List Char) :
    likeTokens (containsPattern text) = .ok (.anyMany :: (text.map .literal ++ [.anyMany])) := by
  rw [containsPattern, likeTokens, escapeLike_eq, likeTokens_escaped]
  rfl

/-- Case folding leaves the escapes where they are. -/
theorem Text.map_containsPattern (text : Text) (reason : List Char) :
    (containsPattern reason).map text.lower = containsPattern (reason.map text.lower) := by
  have hchar : ∀ c, (escapeChar c).map text.lower = escapeChar (text.lower c) := by
    intro c
    cases hmeta : isLikeMeta c with
    | true =>
        rw [text.lower_meta c hmeta, escapeChar, if_pos hmeta, List.map_cons, List.map_singleton,
          text.lower_meta c hmeta, text.lower_meta '\\' rfl]
    | false =>
        have hlower : isLikeMeta (text.lower c) = false :=
          Bool.eq_false_iff.mpr fun h => by rw [text.meta_of_lower c h] at hmeta; cases hmeta
        rw [escapeChar, escapeChar, if_neg (by rw [hmeta]; exact nofun), if_neg (by rw [hlower]; exact nofun)]
        rfl
  rw [containsPattern, containsPattern, List.map_cons, List.map_append, List.map_singleton,
    text.lower_meta '%' rfl, escapeLike_eq, escapeLike_eq, List.map_flatMap, List.flatMap_map]
  simp only [hchar]

/-! ### What a pattern matches -/

theorem likeMatches_literals (text : List Char) (tokens : List LikeToken) (subject : List Char) :
    likeMatches (text.map .literal ++ tokens) subject = true ↔
      ∃ rest, subject = text ++ rest ∧ likeMatches tokens rest = true := by
  induction text generalizing subject with
  | nil => simp
  | cons c tail ih =>
      rw [List.map_cons, List.cons_append]
      cases subject with
      | nil => simp [likeMatches]
      | cons first rest =>
          rw [likeMatches, Bool.and_eq_true, decide_eq_true_eq, ih]
          constructor
          · rintro ⟨rfl, after, rfl, hafter⟩
            exact ⟨after, rfl, hafter⟩
          · rintro ⟨after, hsplit, hafter⟩
            obtain ⟨hfirst, hrest⟩ := List.cons.inj hsplit
            exact ⟨hfirst, after, hrest, hafter⟩

theorem likeMatches_anyMany (tokens : List LikeToken) (subject : List Char) :
    likeMatches (.anyMany :: tokens) subject = true ↔
      ∃ before rest, subject = before ++ rest ∧ likeMatches tokens rest = true := by
  rw [likeMatches, List.any_eq_true]
  constructor
  · rintro ⟨rest, hrest, hmatches⟩
    obtain ⟨before, hsplit⟩ := (List.mem_tails rest subject).mp hrest
    exact ⟨before, rest, hsplit.symm, hmatches⟩
  · rintro ⟨before, rest, hsplit, hmatches⟩
    exact ⟨rest, (List.mem_tails rest subject).mpr ⟨before, hsplit.symm⟩, hmatches⟩

/-- With anything before and after it, a text matches where it occurs. -/
theorem likeMatches_contains (text subject : List Char) :
    likeMatches (.anyMany :: (text.map .literal ++ [.anyMany])) subject = true ↔ text <:+: subject := by
  have htail : ∀ rest, likeMatches [.anyMany] rest = true := fun rest =>
    (likeMatches_anyMany [] rest).mpr ⟨rest, [], (List.append_nil rest).symm, rfl⟩
  rw [likeMatches_anyMany]
  constructor
  · rintro ⟨before, rest, hsubject, hmatches⟩
    obtain ⟨after, hrest, -⟩ := (likeMatches_literals text _ rest).mp hmatches
    refine ⟨before, after, ?_⟩
    rw [hsubject, hrest, List.append_assoc]
  · rintro ⟨before, after, hsubject⟩
    refine ⟨before, text ++ after, ?_, (likeMatches_literals text _ _).mpr ⟨after, rfl, htail after⟩⟩
    rw [← hsubject, List.append_assoc]

/-- The reason filter finds the rows whose reason holds the given text, literally but for case; the escaped
text is read without a wildcard, and the pattern is one that `LIKE` accepts. -/
theorem reason_filter_literal (text : Text) {query : AuditQuery} {reason : String}
    (hreason : query.reasonContains = some reason) (hne : reason ≠ "") :
    likeTokens (containsPattern reason.toList) =
        .ok (.anyMany :: (reason.toList.map .literal ++ [.anyMany])) ∧
      ∃ pattern, query.reasonPattern text = .ok (some pattern) ∧
        pattern = .anyMany :: ((reason.toList.map text.lower).map .literal ++ [.anyMany]) ∧
        ∀ subject : String, likeMatches pattern (subject.toList.map text.lower) = true ↔
          reason.toList.map text.lower <:+: subject.toList.map text.lower := by
  have hread := likeTokens_contains (reason.toList.map text.lower)
  rw [← text.map_containsPattern] at hread
  refine ⟨likeTokens_contains reason.toList, _, ?_, rfl, fun subject => likeMatches_contains _ _⟩
  rw [AuditQuery.reasonPattern, hreason]
  dsimp only
  rw [if_neg hne, hread]
  rfl

theorem toLower_meta {c : Char} (h : isLikeMeta c = true) : c.toLower = c := by
  rw [isLikeMeta, Bool.or_eq_true, Bool.or_eq_true] at h
  rcases h with (h | h) | h <;> rw [of_decide_eq_true h] <;> decide

theorem meta_of_toLower {c : Char} (h : isLikeMeta c.toLower = true) : isLikeMeta c = true := by
  by_cases hupper : c.val ≥ 'A'.val ∧ c.val ≤ 'Z'.val
  · have hlower : c.toLower = ⟨c.val + ('a'.val - 'A'.val), _⟩ := dif_pos hupper
    have hval : c.toLower.val.toNat = c.val.toNat + 32 := by
      rw [hlower]
      have hle : c.val.toNat ≤ 90 := UInt32.le_iff_toNat_le.mp hupper.2
      show (c.val.toNat + 32) % 4294967296 = _
      omega
    have hge : 65 ≤ c.val.toNat := UInt32.le_iff_toNat_le.mp hupper.1
    rw [isLikeMeta, Bool.or_eq_true, Bool.or_eq_true] at h
    have hnone : ∀ n : Nat, n < 97 → c.toLower.val.toNat ≠ n := fun n hn => by omega
    rcases h with (h | h) | h
    · exact absurd (of_decide_eq_true h ▸ rfl) (hnone 92 (by decide))
    · exact absurd (of_decide_eq_true h ▸ rfl) (hnone 37 (by decide))
    · exact absurd (of_decide_eq_true h ▸ rfl) (hnone 95 (by decide))
  · have hlower : c.toLower = c := dif_neg hupper
    rwa [hlower] at h

/-- ASCII letters fold, and nothing else does. -/
def asciiFold : Text where
  isDecimal := Char.isDigit
  lower := Char.toLower
  lower_meta := @toLower_meta
  meta_of_lower := @meta_of_toLower

/-- A text made of meta-characters finds itself, and not what it would match as a pattern. -/
theorem reason_filter_literal_meta : ∃ pattern,
    ({ reasonContains := some "100%\\_" } : AuditQuery).reasonPattern asciiFold = .ok (some pattern) ∧
      likeMatches pattern ("Hit 100%\\_".toList.map asciiFold.lower) = true ∧
      likeMatches pattern ("hit 100 of 100\\x".toList.map asciiFold.lower) = false := by
  obtain ⟨-, pattern, hpattern, -, hmatches⟩ :=
    @reason_filter_literal asciiFold { reasonContains := some "100%\\_" } _ rfl (by decide)
  refine ⟨pattern, hpattern, (hmatches _).mpr (by simp only [String.reduceToList]; decide +kernel), ?_⟩
  rw [Bool.eq_false_iff, Ne, hmatches]
  simp only [String.reduceToList]
  decide +kernel

end VoiceCampaign
