import Cachic.Lib.Text

/-!
# Paths and their dot segments

A path that starts with a slash is the `join` of its segments.  `removeDotSegments` is the
algorithm of RFC 3986, section 5.2.4: it moves the path from an input to an output buffer, and
a segment `..` takes the last segment off the output.  `push` is the same on a stack of
segments.  They agree on a path without empty segments (`removeDotSegments_join`), but for
one thing: a dot segment at the end of the path leaves a slash there.
-/

namespace UrlPath

open CharText

/-- The path of these segments. -/
def join (segments : List (List Char)) : List Char := segments.flatMap fun segment => '/' :: segment

@[simp] theorem join_nil : join [] = [] := rfl

@[simp] theorem join_cons (segment : List Char) (segments : List (List Char)) :
    join (segment :: segments) = '/' :: (segment ++ join segments) := rfl

@[simp] theorem join_append (first second : List (List Char)) :
    join (first ++ second) = join first ++ join second := List.flatMap_append

variable {segments kept : List (List Char)} {segment last : List Char}

theorem join_eq_nil_iff : join segments = [] ↔ segments = [] := by
  cases segments with
  | nil => simp
  | cons segment segments => simp

theorem exists_join_concat (segments : List (List Char)) (last : List Char) :
    ∃ rest, join (segments ++ [last]) = '/' :: rest := by
  cases segments with
  | nil => exact ⟨last, by simp⟩
  | cons segment segments => exact ⟨_, rfl⟩

theorem join_eq_intercalate (h : segments ≠ []) :
    join segments = '/' :: ['/'].intercalate segments := by
  induction segments with
  | nil => exact absurd rfl h
  | cons segment segments ih =>
      cases segments with
      | nil => simp [List.intercalate]
      | cons next segments =>
          rw [join_cons, ih (by simp), List.intercalate_cons_cons]
          simp

/-- A path is its segments behind the first slash. -/
theorem join_splitOn (text : List Char) : join (text.splitOn '/') = '/' :: text := by
  rw [join_eq_intercalate (List.splitOn_ne_nil '/' text), List.intercalate_splitOn]

/-- The segments of a path are those it was made of. -/
theorem splitOn_of_join {rest : List Char} (hslash : ∀ segment ∈ segments, '/' ∉ segment)
    (hne : segments ≠ []) (hjoin : join segments = '/' :: rest) : rest.splitOn '/' = segments := by
  rw [join_eq_intercalate hne] at hjoin
  rw [← List.tail_eq_of_cons_eq hjoin, List.splitOn_intercalate '/' hslash hne]

theorem not_mem_of_mem_splitOn {sep : Char} {text : List Char} (h : segment ∈ text.splitOn sep) :
    sep ∉ segment := by
  induction text generalizing segment with
  | nil =>
      rw [List.splitOn_nil, List.mem_singleton] at h
      simp [h]
  | cons c text ih =>
      rw [List.splitOn_cons_eq_if_modifyHead] at h
      split at h
      case isTrue =>
          rcases List.mem_cons.mp h with rfl | h
          · exact List.not_mem_nil
          · exact ih h
      case isFalse hc =>
          obtain ⟨first, more, hsplit⟩ := List.exists_cons_of_ne_nil (List.splitOn_ne_nil sep text)
          rw [hsplit, List.modifyHead_cons] at h
          rcases List.mem_cons.mp h with rfl | h
          · have hfirst := ih (hsplit ▸ List.mem_cons_self)
            simp only [beq_iff_eq] at hc
            exact fun hmem => (List.mem_cons.mp hmem).elim (fun h => hc h.symm) hfirst
          · exact ih (hsplit ▸ List.mem_cons_of_mem first h)

/-- A text has one last segment. -/
theorem last_segment_unique {before before' last' : List Char}
    (h : before ++ '/' :: last = before' ++ '/' :: last') (hlast : '/' ∉ last)
    (hlast' : '/' ∉ last') : before = before' ∧ last = last' := by
  have hsplit : rsplitOnce '/' (before ++ '/' :: last) = some (before, last) :=
    rsplitOnce_eq_some_iff.mpr ⟨rfl, hlast⟩
  rw [rsplitOnce_eq_some_iff.mpr ⟨h, hlast'⟩] at hsplit
  simpa [eq_comm] using hsplit

/-- And one first segment. -/
theorem first_segment_unique {first first' after after' : List Char}
    (h : first ++ '/' :: after = first' ++ '/' :: after') (hfirst : '/' ∉ first)
    (hfirst' : '/' ∉ first') : first = first' ∧ after = after' := by
  have hsplit : splitOnce '/' (first ++ '/' :: after) = some (first, after) :=
    splitOnce_eq_some_iff.mpr ⟨rfl, hfirst⟩
  rw [splitOnce_eq_some_iff.mpr ⟨h, hfirst'⟩] at hsplit
  simpa [eq_comm] using hsplit

/-! ## Dot segments -/

/-- The segment is `.` or `..`. -/
def IsDots (segment : List Char) : Prop := segment = ['.'] ∨ segment = ['.', '.']

instance (segment : List Char) : Decidable (IsDots segment) := by
  unfold IsDots
  infer_instance

/-- A segment that names something. -/
def Plain (segment : List Char) : Prop := segment ≠ [] ∧ ¬ IsDots segment

instance (segment : List Char) : Decidable (Plain segment) := by
  unfold Plain
  infer_instance

/-- One more segment.  A `..` takes away the one before it, if there is one. -/
def push (kept : List (List Char)) (segment : List Char) : List (List Char) :=
  if segment = [] ∨ segment = ['.'] then kept
  else if segment = ['.', '.'] then kept.dropLast
  else kept ++ [segment]

@[simp] theorem push_nil (kept : List (List Char)) : push kept [] = kept := if_pos (.inl rfl)

theorem push_of_plain (kept : List (List Char)) (h : Plain segment) :
    push kept segment = kept ++ [segment] := by
  obtain ⟨hne, hdots⟩ := h
  rw [IsDots, not_or] at hdots
  rw [push, if_neg (not_or.mpr ⟨hne, hdots.1⟩), if_neg hdots.2]

theorem mem_of_mem_push {pushed : List Char} (h : segment ∈ push kept pushed) :
    segment ∈ kept ∨ segment = pushed ∧ Plain pushed := by
  unfold push at h
  split at h
  case isTrue => exact .inl h
  case isFalse hplain =>
      split at h
      case isTrue => exact .inl (List.mem_of_mem_dropLast h)
      case isFalse hdots =>
          obtain ⟨hne, hdot⟩ := not_or.mp hplain
          rcases List.mem_append.mp h with h | h
          · exact .inl h
          · exact .inr ⟨List.mem_singleton.mp h, hne, not_or.mpr ⟨hdot, hdots⟩⟩

/-- What is kept was among the segments and names something. -/
theorem mem_of_mem_foldl_push (h : segment ∈ segments.foldl push kept) :
    segment ∈ kept ∨ segment ∈ segments ∧ Plain segment := by
  induction segments generalizing kept with
  | nil => exact .inl h
  | cons first segments ih =>
      rcases ih h with hpush | ⟨hmem, hplain⟩
      · rcases mem_of_mem_push hpush with hkept | ⟨rfl, hplain⟩
        · exact .inl hkept
        · exact .inr ⟨List.mem_cons_self, hplain⟩
      · exact .inr ⟨List.mem_cons_of_mem first hmem, hplain⟩

theorem foldl_push_of_plain (kept : List (List Char)) (h : ∀ segment ∈ segments, Plain segment) :
    segments.foldl push kept = kept ++ segments := by
  induction segments generalizing kept with
  | nil => exact (List.append_nil kept).symm
  | cons segment segments ih =>
      rw [List.foldl_cons, push_of_plain kept (h segment List.mem_cons_self),
        ih _ fun s hs => h s (List.mem_cons_of_mem segment hs), List.append_assoc]
      rfl

theorem foldl_push_filter (segments kept : List (List Char)) :
    (segments.filter (· ≠ [])).foldl push kept = segments.foldl push kept := by
  induction segments generalizing kept with
  | nil => rfl
  | cons segment segments ih =>
      by_cases hempty : segment = []
      · subst hempty
        rw [List.foldl_cons, push_nil, ← ih, List.filter_cons_of_neg (by simp)]
      · rw [List.filter_cons_of_pos (by simpa using hempty), List.foldl_cons, List.foldl_cons, ih]

/-- From every point on there are at least as many `..` as segments that name something: no
such segment is left when the dots are resolved. -/
def ClimbsAway (segments : List (List Char)) : Prop :=
  ∀ later, later <:+ segments → later.countP (decide <| Plain ·) ≤ later.count ['.', '.']

theorem length_push (kept : List (List Char)) (segment : List Char) :
    (push kept segment).length + [segment].count ['.', '.'] =
      max (kept.length + [segment].countP (decide <| Plain ·)) ([segment].count ['.', '.']) := by
  unfold push
  split_ifs with hnone htwo
  · rcases hnone with rfl | rfl <;> simp [Plain, IsDots]
  · subst htwo
    simp [Plain, IsDots]
    omega
  · obtain ⟨hne, hone⟩ := not_or.mp hnone
    have hplain : Plain segment := ⟨hne, not_or.mpr ⟨hone, htwo⟩⟩
    simp [hplain, htwo]

/-- The height of the stack is what the segments from some point on add to it, so the stack
ends empty when none of these sums is positive. -/
theorem foldl_push_eq_nil_iff :
    segments.foldl push kept = [] ↔
      kept.length + segments.countP (decide <| Plain ·) ≤ segments.count ['.', '.'] ∧
        ClimbsAway segments := by
  induction segments generalizing kept with
  | nil => simp [ClimbsAway]
  | cons segment segments ih =>
      have hpush := length_push kept segment
      have hclimbs : ClimbsAway (segment :: segments) ↔
          (segment :: segments).countP (decide <| Plain ·) ≤
            (segment :: segments).count ['.', '.'] ∧ ClimbsAway segments := by
        simp only [ClimbsAway, List.suffix_cons_iff, forall_eq_or_imp]
      have hplain := @List.countP_append _ (decide <| Plain ·) [segment] segments
      have hdots := @List.count_append _ _ ['.', '.'] [segment] segments
      rw [List.singleton_append] at hplain hdots
      rw [List.foldl_cons, ih, hclimbs]
      constructor
      · rintro ⟨hsum, hlater⟩
        exact ⟨by omega, by omega, hlater⟩
      · rintro ⟨hsum, -, hlater⟩
        have hrest := hlater segments List.suffix_rfl
        exact ⟨by omega, hlater⟩

/-! ## The algorithm of the RFC -/

/-- The output without its last segment and the slash before it. -/
def dropLastSegment (output : List Char) : List Char :=
  match rsplitOnce '/' output with
  | some (before, _) => before
  | none => []

/-- One turn of the loop over the input and the output buffer. -/
def removeDotStep : List Char × List Char → List Char × List Char
  | (input, output) =>
      -- A: dots at the start that are not a whole segment of an absolute path
      if ['.', '.', '/'] <+: input then (input.drop 3, output)
      else if ['.', '/'] <+: input then (input.drop 2, output)
      -- B
      else if ['/', '.', '/'] <+: input ∨ input = ['/', '.'] then ('/' :: input.drop 3, output)
      -- C
      else if ['/', '.', '.', '/'] <+: input ∨ input = ['/', '.', '.'] then
        ('/' :: input.drop 4, dropLastSegment output)
      -- D
      else if input = ['.'] ∨ input = ['.', '.'] then ([], output)
      -- E: the first segment, with its slash
      else
        let rest := input.drop 1
        (rest.dropWhile (· ≠ '/'), output ++ input.take 1 ++ rest.takeWhile (· ≠ '/'))

/-- Each turn shortens the input, so there are at most as many as it has characters. -/
def removeDotSegments (path : List Char) : List Char :=
  (removeDotStep^[path.length] (path, [])).2

example : removeDotSegments "/a/b/c/./../../g".toList = "/a/g".toList := by decide

theorem dropLastSegment_join (h : ∀ segment ∈ kept, '/' ∉ segment) :
    dropLastSegment (join kept) = join kept.dropLast := by
  cases kept using List.reverseRecOn with
  | nil => rfl
  | append_singleton kept last =>
      have hlast : '/' ∉ last := h last (by simp)
      have hsplit : rsplitOnce '/' (join (kept ++ [last])) = some (join kept, last) :=
        rsplitOnce_eq_some_iff.mpr ⟨by simp, hlast⟩
      rw [dropLastSegment, hsplit, List.dropLast_concat]

@[simp] theorem removeDotStep_nil (output : List Char) :
    removeDotStep ([], output) = ([], output) := by
  simp [removeDotStep]

theorem iterate_removeDotStep_nil (n : ℕ) (output : List Char) :
    removeDotStep^[n] ([], output) = ([], output) :=
  Function.iterate_fixed (removeDotStep_nil output) n

/-- The first segment of a path is that dot segment if the path starts with it. -/
theorem dots_prefix_iff {dots rest : List Char} (hdots : '/' ∉ dots) (hslash : '/' ∉ segment) :
    '/' :: (dots ++ ['/']) <+: '/' :: (segment ++ '/' :: rest) ↔ segment = dots := by
  rw [List.prefix_cons_inj]
  constructor
  · rintro ⟨after, h⟩
    rw [List.append_assoc] at h
    exact (first_segment_unique h hdots hslash).1.symm
  · rintro rfl
    exact ⟨rest, by simp⟩

/-- A segment with a path behind it is moved, or resolved if it is dots. -/
theorem removeDotStep_segment (rest : List Char) (hkept : ∀ segment ∈ kept, '/' ∉ segment)
    (hne : segment ≠ []) (hslash : '/' ∉ segment) :
    removeDotStep ('/' :: (segment ++ '/' :: rest), join kept) =
      ('/' :: rest, join (push kept segment)) := by
  have hall : ∀ c ∈ segment, (!decide (c = '/')) = true := fun c hc => by
    simpa using ne_of_mem_of_not_mem hc hslash
  have hbehind : ∀ text : List Char, '/' ∉ text → '/' :: (segment ++ '/' :: rest) ≠ '/' :: text :=
    fun text htext h => htext (List.tail_eq_of_cons_eq h ▸ by simp)
  have hdot := @dots_prefix_iff segment ['.'] rest (by decide) hslash
  have hdots := @dots_prefix_iff segment ['.', '.'] rest (by decide) hslash
  simp only [List.cons_append, List.nil_append] at hdot hdots
  simp only [removeDotStep, hdot, hdots, hbehind ['.'] (by decide), hbehind ['.', '.'] (by decide),
    or_false]
  rw [if_neg (by simp), if_neg (by simp)]
  by_cases hone : segment = ['.']
  · subst hone
    simp [push]
  · rw [if_neg hone]
    by_cases htwo : segment = ['.', '.']
    · subst htwo
      simp [push, dropLastSegment_join hkept]
    · rw [if_neg htwo, if_neg (by simp), push_of_plain kept ⟨hne, not_or.mpr ⟨hone, htwo⟩⟩]
      simp [List.takeWhile_append_of_pos hall, List.dropWhile_append_of_pos hall]

/-- A last segment that is not dots is moved. -/
theorem removeDotStep_last (output : List Char) (hslash : '/' ∉ segment)
    (hdots : ¬ IsDots segment) :
    removeDotStep ('/' :: segment, output) = ([], output ++ '/' :: segment) := by
  have hall : ∀ c ∈ segment, (!decide (c = '/')) = true := fun c hc => by
    simpa using ne_of_mem_of_not_mem hc hslash
  have hnot : ∀ text, ¬ '/' :: (text ++ ['/']) <+: '/' :: segment := fun text h =>
    hslash ((List.prefix_cons_inj '/').mp h |>.subset (by simp))
  have hdot := hnot ['.']
  have hdotdot := hnot ['.', '.']
  obtain ⟨hone, htwo⟩ := not_or.mp hdots
  simp only [List.cons_append, List.nil_append] at hdot hdotdot
  simp only [removeDotStep, hdot, hdotdot, List.cons.injEq, hone, htwo]
  simpa using hall

/-- Dots at the end leave a slash. -/
theorem removeDotStep_dots (hkept : ∀ segment ∈ kept, '/' ∉ segment) (hdots : IsDots segment) :
    removeDotStep ('/' :: segment, join kept) = (['/'], join (push kept segment)) := by
  rcases hdots with rfl | rfl
  · simp [removeDotStep, push]
  · simp [removeDotStep, push, dropLastSegment_join hkept]

/-- What the last segment makes of the segments before it. -/
def finish (kept : List (List Char)) (last : List Char) : List (List Char) :=
  push kept last ++ if Plain last then [] else [[]]

/-- Induction on the segments before the last; `kept` are those in the output. -/
theorem iterate_removeDotStep {n : ℕ} (hkept : ∀ segment ∈ kept, '/' ∉ segment)
    (hsegments : ∀ segment ∈ segments, segment ≠ [] ∧ '/' ∉ segment) (hlast : '/' ∉ last)
    (hn : (join (segments ++ [last])).length ≤ n) :
    (removeDotStep^[n] (join (segments ++ [last]), join kept)).2 =
      join (finish (segments.foldl push kept) last) := by
  induction segments generalizing kept n with
  | nil =>
      simp only [List.nil_append, join_cons, join_nil, List.append_nil, List.length_cons,
        List.foldl_nil] at hn ⊢
      obtain ⟨m, rfl⟩ := Nat.exists_eq_add_of_le' (Nat.le_of_add_left_le hn)
      rw [Function.iterate_succ_apply]
      by_cases hdots : IsDots last
      · have hplain : ¬ Plain last := fun h => h.2 hdots
        obtain ⟨k, rfl⟩ : ∃ k, m = k + 1 := by
          refine Nat.exists_eq_add_of_le' ?_
          rcases hdots with rfl | rfl <;> simp at hn <;> omega
        rw [removeDotStep_dots hkept hdots, Function.iterate_succ_apply,
          removeDotStep_last _ List.not_mem_nil (by simp [IsDots]), iterate_removeDotStep_nil]
        simp [finish, hplain]
      · rw [removeDotStep_last _ hlast hdots, iterate_removeDotStep_nil, finish]
        by_cases hempty : last = []
        · subst hempty
          simp [Plain]
        · have hplain : Plain last := ⟨hempty, hdots⟩
          simp [hplain, push_of_plain kept hplain]
  | cons segment segments ih =>
      obtain ⟨hne, hslash⟩ := hsegments segment List.mem_cons_self
      obtain ⟨rest, hrest⟩ := exists_join_concat segments last
      have hpushed : ∀ s ∈ push kept segment, '/' ∉ s := fun s hs =>
        (mem_of_mem_push hs).elim (hkept s) fun h => h.1 ▸ hslash
      rw [List.cons_append, join_cons, hrest] at hn ⊢
      obtain ⟨m, rfl⟩ := Nat.exists_eq_add_of_le' (show 1 ≤ n by simp at hn; omega)
      rw [Function.iterate_succ_apply, removeDotStep_segment rest hkept hne hslash, ← hrest,
        List.foldl_cons]
      refine ih hpushed (fun s hs => hsegments s (List.mem_cons_of_mem segment hs)) ?_
      rw [hrest]
      simp at hn ⊢
      omega

/-- The algorithm resolves the segments on a stack, and puts a slash where the path ends in
dots. -/
theorem removeDotSegments_join (hsegments : ∀ segment ∈ segments, segment ≠ [] ∧ '/' ∉ segment)
    (hlast : '/' ∉ last) :
    removeDotSegments (join (segments ++ [last])) = join (finish (segments.foldl push []) last) :=
  @iterate_removeDotStep segments [] last _ (fun _ h => absurd h List.not_mem_nil) hsegments hlast
    le_rfl

/-! ## Merging slashes -/

/-- Runs of slashes become one. -/
def mergeSlashes : List Char → List Char
  | [] => []
  | [c] => [c]
  | c :: d :: text =>
      if c = '/' ∧ d = '/' then mergeSlashes (d :: text) else c :: mergeSlashes (d :: text)

theorem mergeSlashes_cons {c : Char} (text : List Char) (h : c ≠ '/') :
    mergeSlashes (c :: text) = c :: mergeSlashes text := by
  cases text with
  | nil => rfl
  | cons d text => rw [mergeSlashes, if_neg fun hc => h hc.1]

theorem mergeSlashes_append (rest : List Char) (h : '/' ∉ segment) :
    mergeSlashes (segment ++ rest) = segment ++ mergeSlashes rest := by
  induction segment with
  | nil => rfl
  | cons c segment ih =>
      obtain ⟨hc, hsegment⟩ := List.ne_and_not_mem_of_not_mem_cons h
      rw [List.cons_append, mergeSlashes_cons _ (Ne.symm hc), ih hsegment, List.cons_append]

/-- Merging the slashes of a path drops its empty segments, but for the last. -/
theorem mergeSlashes_join (hsegments : ∀ segment ∈ segments, '/' ∉ segment) (hlast : '/' ∉ last) :
    mergeSlashes (join (segments ++ [last])) = join (segments.filter (· ≠ []) ++ [last]) := by
  induction segments with
  | nil =>
      cases last with
      | nil => rfl
      | cons c last =>
          have hc : c ≠ '/' := Ne.symm (List.ne_and_not_mem_of_not_mem_cons hlast).1
          simp only [List.nil_append, List.filter_nil, join_cons, join_nil, List.append_nil]
          rw [mergeSlashes, if_neg fun h => hc h.2, ← List.append_nil (c :: last),
            mergeSlashes_append [] hlast, mergeSlashes]
  | cons segment segments ih =>
      have ih := ih fun s hs => hsegments s (List.mem_cons_of_mem segment hs)
      obtain ⟨rest, hrest⟩ := exists_join_concat segments last
      rw [List.cons_append, join_cons]
      cases segment with
      | nil =>
          rw [List.nil_append, List.filter_cons_of_neg (by simp), ← ih, hrest, mergeSlashes,
            if_pos ⟨rfl, rfl⟩]
      | cons c segment =>
          have hslash : '/' ∉ c :: segment := hsegments _ List.mem_cons_self
          have hc : c ≠ '/' := Ne.symm (List.ne_and_not_mem_of_not_mem_cons hslash).1
          rw [List.filter_cons_of_pos (by simp), List.cons_append, List.cons_append, mergeSlashes,
            if_neg fun h => hc h.2, ← List.cons_append, mergeSlashes_append _ hslash, ih, join_cons]

end UrlPath
