import Courier.Proofs.Host
import Courier.Proofs.Lines
import Courier.Proofs.Patterns

/-!
# Dot segments

A segment of a path that is one dot or two stands for a place: whoever normalizes the path takes it
away, and two dots take away the segment before them as well. A dot is written as it is in encoded
text and is allowed in the name of a region, so that a path is the same after that exactly if no
region and no segment of the pattern comes to dots with the values in its slots
(`Operation.climbLaw_of_render`).
-/
namespace Courier

namespace Uri

/-! ## Paths without dot segments -/

/-- A segment that stands for a place and is no name. -/
def IsDots (segment : List Char) : Prop := segment = ['.'] ∨ segment = ['.', '.']

instance (segment : List Char) : Decidable (IsDots segment) :=
  inferInstanceAs (Decidable (_ ∨ _))

/-- A path of the given segments. -/
def pathOf (segments : List (List Char)) : List Char := segments.flatMap ('/' :: ·)

/-- What has been written, without its last segment and the slash before that. -/
def dropSegment (written : List Char) : List Char :=
  (written.reverse.dropWhile (· != '/')).tail.reverse

/-- Segments are moved from the front of a path to the end of what has been written. One dot is
taken away, and two dots are with the segment that was written last. -/
def removeDotsFrom (written : List Char) : List Char → List Char
  | [] => written
  | '.' :: '.' :: '/' :: rest => removeDotsFrom written rest
  | '.' :: '/' :: rest => removeDotsFrom written rest
  | '/' :: '.' :: '/' :: rest => removeDotsFrom written ('/' :: rest)
  | ['/', '.'] => removeDotsFrom written ['/']
  | '/' :: '.' :: '.' :: '/' :: rest => removeDotsFrom (dropSegment written) ('/' :: rest)
  | ['/', '.', '.'] => removeDotsFrom (dropSegment written) ['/']
  | ['.'] => written
  | ['.', '.'] => written
  | c :: rest =>
    removeDotsFrom (written ++ c :: rest.takeWhile (· != '/')) (rest.dropWhile (· != '/'))
termination_by path => path.length
decreasing_by
  all_goals simp only [List.length_cons, List.length_nil]
  all_goals try omega
  have := (List.dropWhile_suffix (l := rest) (· != '/')).length_le
  omega

/-- A path as it is when all dot segments have been removed. -/
def removeDots (path : String) : String := String.ofList (removeDotsFrom [] path.toList)

variable {segment written : List Char} {segments : List (List Char)}

theorem IsDots.eq_dot (dots : IsDots segment) : ∀ c ∈ segment, c = '.' := by
  rcases dots with rfl | rfl <;> simp

theorem length_dropSegment_le (written : List Char) :
    (dropSegment written).length ≤ written.length := by
  have shorter := (List.dropWhile_suffix (l := written.reverse) (· != '/')).length_le
  rw [List.length_reverse] at shorter
  rw [dropSegment, List.length_reverse, List.length_tail]
  omega

/-- Nothing is ever added. -/
theorem length_removeDotsFrom_le (written path : List Char) :
    (removeDotsFrom written path).length ≤ written.length + path.length := by
  fun_induction removeDotsFrom written path with
  | case1 => simp
  | case2 written rest ih => simp only [List.length_cons]; omega
  | case3 written rest ih => simp only [List.length_cons]; omega
  | case4 written rest ih => simp only [List.length_cons] at ih ⊢; omega
  | case5 written ih => simp only [List.length_cons, List.length_nil] at ih ⊢; omega
  | case6 written rest ih =>
    have shorter := length_dropSegment_le written
    simp only [List.length_cons] at ih ⊢
    omega
  | case7 written ih =>
    have shorter := length_dropSegment_le written
    simp only [List.length_cons, List.length_nil] at ih ⊢
    omega
  | case8 => simp
  | case9 => simp
  | case10 written c rest _ _ _ _ _ _ _ _ ih =>
    have whole := List.takeWhile_append_dropWhile (p := (· != '/')) (l := rest)
    have sizes := congrArg List.length whole
    rw [List.length_append] at sizes
    simp only [List.length_append, List.length_cons] at ih ⊢
    omega

/-- What stands behind a segment is nothing or another one. -/
theorem pathOf_cases (segments : List (List Char)) :
    pathOf segments = [] ∨ ∃ rest, pathOf segments = '/' :: rest := by
  cases segments with
  | nil => exact .inl rfl
  | cons segment segments => exact .inr ⟨_, rfl⟩

/-- A dot segment is not written, and what has been written does not grow. -/
theorem removeDotsFrom_dots (dots : IsDots segment) (written : List Char)
    (segments : List (List Char)) : ∃ kept back,
      removeDotsFrom written ('/' :: (segment ++ pathOf segments)) = removeDotsFrom kept back ∧
        kept.length ≤ written.length ∧ back.length ≤ (pathOf segments).length + 1 := by
  have shorter := length_dropSegment_le written
  rcases pathOf_cases segments with last | ⟨rest, further⟩
  · rw [last]
    rcases dots with rfl | rfl
    · exact ⟨written, ['/'], by simp [removeDotsFrom], Nat.le_refl _, Nat.le_refl _⟩
    · exact ⟨dropSegment written, ['/'], by simp [removeDotsFrom], shorter, Nat.le_refl _⟩
  · rw [further]
    rcases dots with rfl | rfl
    · refine ⟨written, '/' :: rest, ?_, Nat.le_refl _, Nat.le_succ _⟩
      rw [List.cons_append, List.nil_append, removeDotsFrom]
    · refine ⟨dropSegment written, '/' :: rest, ?_, shorter, Nat.le_succ _⟩
      rw [List.cons_append, List.cons_append, List.nil_append, removeDotsFrom]

/-- So a path with a dot segment gets shorter. -/
theorem length_removeDotsFrom_lt (dots : IsDots segment) (written : List Char)
    (segments : List (List Char)) :
    (removeDotsFrom written ('/' :: (segment ++ pathOf segments))).length <
      written.length + ('/' :: (segment ++ pathOf segments)).length := by
  obtain ⟨kept, back, same, le, short⟩ := removeDotsFrom_dots dots written segments
  have most := length_removeDotsFrom_le kept back
  have dot : 0 < segment.length := by rcases dots with rfl | rfl <;> simp
  rw [same, List.length_cons, List.length_append]
  omega

/-- Any other segment is moved as it is. -/
theorem removeDotsFrom_segment (name : ¬ IsDots segment) (free : '/' ∉ segment)
    (written : List Char) : removeDotsFrom written ('/' :: (segment ++ pathOf segments)) =
      removeDotsFrom (written ++ '/' :: segment) (pathOf segments) := by
  have moved : ∀ c ∈ segment, (c != '/') = true := by
    intro c hc
    rw [bne_iff_ne]
    rintro rfl
    exact free hc
  have cut : (segment ++ pathOf segments).takeWhile (· != '/') = segment ∧
      (segment ++ pathOf segments).dropWhile (· != '/') = pathOf segments := by
    rw [List.takeWhile_append_of_pos moved, List.dropWhile_append_of_pos moved]
    rcases pathOf_cases segments with last | ⟨rest, further⟩
    · simp [last]
    · simp [further]
  have other : ¬ IsDots ((segment ++ pathOf segments).takeWhile (· != '/')) := by rwa [cut.1]
  rw [removeDotsFrom, cut.1, cut.2]
  case x_3 => exact fun rest _ same => other (.inl (by rw [same]; rfl))
  case x_4 => exact fun _ same => other (.inl (by rw [same]; rfl))
  case x_5 => exact fun rest _ same => other (.inr (by rw [same]; rfl))
  case x_6 => exact fun _ same => other (.inr (by rw [same]; rfl))
  all_goals simp

/-- A path stays as it is exactly if none of its segments is dots. -/
theorem removeDotsFrom_pathOf_iff (free : ∀ segment ∈ segments, '/' ∉ segment)
    (written : List Char) : removeDotsFrom written (pathOf segments) = written ++ pathOf segments ↔
      ∀ segment ∈ segments, ¬ IsDots segment := by
  induction segments generalizing written with
  | nil => simp [pathOf, removeDotsFrom]
  | cons segment segments ih =>
    obtain ⟨here, later⟩ := List.forall_mem_cons.1 free
    have whole : pathOf (segment :: segments) = '/' :: (segment ++ pathOf segments) := rfl
    rw [whole, List.forall_mem_cons]
    by_cases dots : IsDots segment
    · refine iff_of_false (fun same => ?_) fun names => names.1 dots
      have shorter := length_removeDotsFrom_lt dots written segments
      rw [same, List.length_append] at shorter
      exact Nat.lt_irrefl _ shorter
    · have moved : written ++ '/' :: (segment ++ pathOf segments) =
          (written ++ '/' :: segment) ++ pathOf segments := by simp
      rw [removeDotsFrom_segment dots here, moved, ih later]
      exact (and_iff_right dots).symm

theorem removeDots_eq_self_iff {path : String} (segmented : path.toList = pathOf segments)
    (free : ∀ segment ∈ segments, '/' ∉ segment) :
    removeDots path = path ↔ ∀ segment ∈ segments, ¬ IsDots segment := by
  rw [← String.toList_inj, removeDots, String.toList_ofList, segmented,
    ← removeDotsFrom_pathOf_iff free, List.nil_append]

/-! ## Paths as they are read -/

/-- The path that is read in a target goes up to its first question mark or hash. -/
theorem path_of_targetText {front rest target : List Char} {uri : Uri}
    (plain : ∀ c ∈ front, c ≠ '?' ∧ c ≠ '#') (nonempty : front ≠ [])
    (ends : rest = [] ∨ ∃ back, rest = '?' :: back ∨ rest = '#' :: back)
    (read : targetText (front ++ rest) = .ok target)
    (found : uri.target = some (String.ofList target)) : uri.path = String.ofList front := by
  obtain ⟨back, silent, rfl⟩ := targetText_append plain read
  have noPath : back.takeWhile (· != '?') = [] := by
    rcases ends with rfl | ⟨rest, rfl | rfl⟩
    · cases Except.ok.inj silent
      rfl
    · obtain ⟨query, -, rfl⟩ := exists_of_map_eq_ok silent
      rfl
    · cases Except.ok.inj silent
      rfl
  have passed : ∀ c ∈ front, (c != '?') = true := fun c hc => bne_iff_ne.2 (plain c hc).1
  have whole : (front ++ back).takeWhile (· != '?') = front := by
    rw [List.takeWhile_append_of_pos passed, noPath, List.append_nil]
  simp [path, found, whole, nonempty]

end Uri

/-! ## Dots in encoded text -/

namespace Percent

/-- Dots are written as they are. -/
theorem encode_of_dots {text : String} (dots : ∀ c ∈ text.toList, c = '.') :
    encode text = text := by
  have each : ∀ c ∈ text.toList, (String.utf8EncodeChar c).flatMap encodeByte = [c] := by
    intro c hc
    rw [dots c hc]
    decide
  rw [← String.toList_inj, encode, String.toList_ofList, Utf8.encode, List.flatMap_assoc,
    List.flatMap_congr each, List.flatMap_singleton']

/-- Nothing else is written as dots. -/
theorem encode_eq_of_dots {text : String} (dots : ∀ c ∈ (encode text).toList, c = '.') :
    encode text = text := by
  have twice := decode?_encode (encode text)
  rw [encode_of_dots dots, decode?_encode] at twice
  exact (Option.some.inj twice).symm

end Percent

namespace Api

/-! ## Segments of patterns -/

namespace Piece

/-- What a piece comes to before anything is encoded. -/
def spelled (value? : String → Option String) : Piece → List Char
  | .char c => [c]
  | .slot name => ((value? name).getD "").toList

/-- A question mark or a hash, behind which no path goes on. -/
def endsPath : Piece → Bool
  | .char c => c == '?' || c == '#'
  | .slot _ => false

variable {value? : String → Option String} {p : Piece} {pieces : List Piece}

theorem written_eq_spelled
    (dots : (∀ c ∈ p.written value?, c = '.') ∨ ∀ c ∈ p.spelled value?, c = '.') :
    p.written value? = p.spelled value? := by
  cases p with
  | char c => rfl
  | slot name =>
    refine congrArg String.toList ?_
    exact dots.elim Percent.encode_eq_of_dots Percent.encode_of_dots

/-- What is dots, encoded or not, is the same in both forms. -/
theorem flatMap_written_eq (dots : Uri.IsDots (pieces.flatMap (written value?)) ∨
      Uri.IsDots (pieces.flatMap (spelled value?))) :
    pieces.flatMap (written value?) = pieces.flatMap (spelled value?) := by
  refine List.flatMap_congr fun p hp => written_eq_spelled (dots.imp ?_ ?_)
  · exact fun h c hc => h.eq_dot c (List.mem_flatMap.2 ⟨p, hp, hc⟩)
  · exact fun h c hc => h.eq_dot c (List.mem_flatMap.2 ⟨p, hp, hc⟩)

/-- A segment is written as dots exactly if it comes to dots before anything is encoded. -/
theorem isDots_written_iff (pieces : List Piece) :
    Uri.IsDots (pieces.flatMap (written value?)) ↔
      Uri.IsDots (pieces.flatMap (spelled value?)) := by
  constructor
  · intro dots
    rwa [← flatMap_written_eq (.inl dots)]
  · intro dots
    rwa [flatMap_written_eq (.inr dots)]

theorem endsPath_iff : p.endsPath = true ↔ p = .char '?' ∨ p = .char '#' := by
  cases p <;> simp [endsPath]

/-- Encoded text has no marks, so that a mark is written for no piece but itself. -/
theorem eq_char_of_mem_written {c : Char} (reserved : Percent.isWritten c = false)
    (mem : c ∈ p.written value?) : p = .char c := by
  cases p with
  | char d => rw [List.mem_singleton.1 mem]
  | slot name => exact absurd mem (Percent.not_mem_encode reserved _)

/-- Cut at its slashes, a row of pieces is a path. -/
theorem pathOf_splitOn (pieces : List Piece) :
    Uri.pathOf ((pieces.splitOn (.char '/')).map fun segment =>
        segment.flatMap (written value?)) = '/' :: pieces.flatMap (written value?) := by
  induction pieces with
  | nil => simp [Uri.pathOf, List.splitOn]
  | cons p pieces ih =>
    rw [List.splitOn_eq_splitOnP, List.splitOnP_cons_eq_if_modifyHead,
      ← List.splitOn_eq_splitOnP]
    split
    next slash =>
      rw [beq_iff_eq.1 slash, List.map_cons, Uri.pathOf, List.flatMap_cons]
      exact congrArg ('/' :: ·) ih
    next other =>
      obtain ⟨first, others, split⟩ :=
        List.exists_cons_of_ne_nil (List.splitOn_ne_nil (Piece.char '/') pieces)
      rw [split] at ih ⊢
      have rest : first.flatMap (written value?) ++
          Uri.pathOf (others.map fun segment => segment.flatMap (written value?)) =
          pieces.flatMap (written value?) := List.cons.inj ih |>.2
      rw [List.modifyHead_cons, List.map_cons, Uri.pathOf, List.flatMap_cons, List.flatMap_cons,
        List.flatMap_cons, ← rest, List.cons_append, List.append_assoc]
      rfl

end Piece

theorem scanPieces_sources {pieces : List Piece} (sound : ∀ p ∈ pieces, p.IsSound) :
    scanPieces none (pieces.flatMap Piece.source) = (pieces, none) := by
  induction pieces with
  | nil => rfl
  | cons p pieces ih =>
    obtain ⟨here, later⟩ := List.forall_mem_cons.1 sound
    rw [List.flatMap_cons, scanPieces_source here, ih later]

namespace Operation

/-- The segments of the path of a pattern, as rows of pieces. -/
def segments (op : Operation) : List (List Piece) :=
  (((scanPattern op.pattern).1.takeWhile (!·.endsPath)).drop 1).splitOn (.char '/')

/-- A segment as it is written in a path. -/
def writtenSegment (op : Operation) (segment : List Piece) : List Char :=
  segment.flatMap (Piece.written op.value?)

/-- A segment as it is meant: its literal text with the values bound to its slots. -/
def spelledSegment (op : Operation) (segment : List Piece) : List Char :=
  segment.flatMap (Piece.spelled op.value?)

/-- What may stand behind a path: nothing, a query or a fragment. -/
def IsTail (tail : String) : Prop := tail = "" ∨ ∃ back, tail = "?" ++ back ∨ tail = "#" ++ back

theorem isTail_queryText (pairs : List (String × String)) : IsTail (queryText pairs) := by
  rw [queryText]
  split
  · exact .inl rfl
  · exact .inr ⟨_, .inl rfl⟩

variable {value? : String → Option String} {pieces : List Piece}

/-- The pieces from the first mark on are no part of the path … -/
theorem isTail_dropWhile (value? : String → Option String) (pieces : List Piece)
    (pairs : List (String × String)) :
    IsTail (String.ofList ((pieces.dropWhile (!·.endsPath)).flatMap (Piece.written value?)) ++
      queryText pairs) := by
  have stops := List.head?_dropWhile_not (!Piece.endsPath ·) pieces
  cases behind : pieces.dropWhile (!·.endsPath) with
  | nil =>
    rw [List.flatMap_nil, String.ofList_nil, String.empty_append]
    exact isTail_queryText pairs
  | cons p back =>
    have mark : p.endsPath = true := by simpa [behind] using stops
    refine .inr ⟨String.ofList (back.flatMap (Piece.written value?)) ++ queryText pairs, ?_⟩
    rw [List.flatMap_cons, String.ofList_append, String.append_assoc]
    rcases Piece.endsPath_iff.1 mark with rfl | rfl
    · exact .inl rfl
    · exact .inr rfl

/-- … and those before it write no mark. -/
theorem plain_takeWhile (pieces : List Piece) :
    ∀ c ∈ (pieces.takeWhile (!·.endsPath)).flatMap (Piece.written value?), c ≠ '?' ∧ c ≠ '#' := by
  intro c hc
  obtain ⟨p, hp, mem⟩ := List.mem_flatMap.1 hc
  have goesOn : ¬ p.endsPath = true := by simpa using List.mem_takeWhile_imp hp
  rw [Piece.endsPath_iff, not_or] at goesOn
  constructor
  · rintro rfl
    exact goesOn.1 (Piece.eq_char_of_mem_written (by decide) mem)
  · rintro rfl
    exact goesOn.2 (Piece.eq_char_of_mem_written (by decide) mem)

/-- A slash at the front is a piece of its own. -/
theorem exists_cons_of_absolute (absolute : (pieces.flatMap Piece.source).head? = some '/') :
    ∃ more, pieces = .char '/' :: more := by
  cases pieces with
  | nil => cases absolute
  | cons p more =>
    cases p with
    | char c => exact ⟨more, by rw [Option.some.inj absolute]⟩
    | slot name => cases absolute

/-- What is rendered is the path of the written segments with what stands behind it. -/
theorem segments_of_render {op : Operation} {rendered : String} (ok : op.render = .ok rendered) :
    ∃ path tail : String, rendered = path ++ tail ∧ IsTail tail ∧
      path.toList = Uri.pathOf (op.segments.map op.writtenSegment) ∧
      ∀ c ∈ path.toList, c ≠ '?' ∧ c ≠ '#' := by
  rw [render_eq] at ok
  split at ok
  next absolute =>
    obtain ⟨_, filled, rfl⟩ := exists_of_map_eq_ok ok
    obtain ⟨pieces, source, all, rfl⟩ := path_eq_ok_iff.1 filled
    have scanned : (scanPattern op.pattern).1 = pieces := by
      rw [scanPattern, if_pos absolute, source, scanPieces_sources fun p hp => (all p hp).1]
    rw [source] at absolute
    obtain ⟨more, rfl⟩ := exists_cons_of_absolute absolute
    have segmented : op.segments = (more.takeWhile (!·.endsPath)).splitOn (.char '/') := by
      rw [segments, scanned]
      rfl
    have whole := List.takeWhile_append_dropWhile (p := (!Piece.endsPath ·)) (l := more)
    refine ⟨String.ofList ('/' :: (more.takeWhile (!·.endsPath)).flatMap (Piece.written op.value?)),
      _, ?whole, isTail_dropWhile op.value? more op.query, ?segmented, ?plain⟩
    case whole =>
      rw [← String.append_assoc, ← String.ofList_append, List.cons_append, ← List.flatMap_append,
        whole]
      rfl
    case segmented =>
      rw [String.toList_ofList, segmented]
      exact (Piece.pathOf_splitOn _).symm
    case plain =>
      rw [String.toList_ofList, List.forall_mem_cons]
      exact ⟨by decide, plain_takeWhile more⟩
  next => cases ok

/-- No slash is written in a segment. -/
theorem slash_not_mem_writtenSegment (op : Operation) {segment : List Piece}
    (among : segment ∈ op.segments) : '/' ∉ op.writtenSegment segment := by
  intro mem
  obtain ⟨p, hp, mem⟩ := List.mem_flatMap.1 mem
  rw [Piece.eq_char_of_mem_written (by decide) mem] at hp
  exact Lines.not_mem_of_mem_splitOn among hp

end Operation

/-! ## Base paths -/

theorem Router.origin_over {given : String} {origin : Origin}
    (spelled : given = origin.text ∨ given = origin.text ++ "/") (region : Option Region)
    (families : List String) : (Router.over given region families).origin = origin.text := by
  rcases spelled with rfl | rfl
  · exact origin.dropSlashes_text
  · exact origin.dropSlashes_text_slash

/-- The region comes to dots and is part of the path. -/
def NamesDots (region : Option Region) (families : List String) (pattern : String) : Prop :=
  ∃ r, region = some r ∧ (∀ family ∈ families, ¬ family.toList <+: pattern.toList) ∧
    Uri.IsDots r.id.toList

/-- The segments of a base path. Only the region can be dots. -/
theorem IsBase.exists_segments {region : Option Region} {families : List String}
    {pattern base : String} (located : IsBase region families pattern base) :
    ∃ segments, base.toList = Uri.pathOf segments ∧ (∀ segment ∈ segments, '/' ∉ segment) ∧
      ((∀ segment ∈ segments, ¬ Uri.IsDots segment) ↔ ¬ NamesDots region families pattern) := by
  rcases located with ⟨r, rfl, outside, rfl⟩ | ⟨elsewhere, rfl⟩
  · have free : '/' ∉ r.id.toList := fun mem => absurd (r.isRegionChar_of_mem _ mem) (by decide)
    refine ⟨["api".toList, "v1".toList, "regions".toList, r.id.toList], ?_, ?_, ?_⟩
    · simp [Uri.pathOf]
    · simp [free]
    · have named : NamesDots (some r) families pattern ↔ Uri.IsDots r.id.toList := by
        constructor
        · rintro ⟨_, ⟨⟩, -, dots⟩
          exact dots
        · exact fun dots => ⟨r, rfl, outside, dots⟩
      rw [named]
      simp [Uri.IsDots]
  · refine ⟨["api".toList, "v1".toList], rfl, by decide, iff_of_true (by decide) ?_⟩
    rintro ⟨r, rfl, outside, -⟩
    obtain ⟨family, mem, begins⟩ := elsewhere.resolve_left nofun
    exact outside family mem begins

namespace Operation

/-! ## Addresses -/

/-- The path of the address of an operation, and what is left of it when dot segments are removed.
The address is `url`. -/
structure ClimbLaw (origin : Origin) (region : Option Region) (families : List String)
    (op : Operation) (base path tail url : String) : Prop where
  /-- Behind the origin stand the base path and the path of the pattern. -/
  whole : url = origin.text ++ base ++ path ++ tail
  located : IsBase region families op.pattern base
  /-- Behind them stands no more of the path … -/
  ends : IsTail tail
  /-- … so that this is the path that is read in the address. -/
  read : ∀ uri, Uri.parse url = .ok uri → uri.path = base ++ path
  /-- It stays as it is exactly if neither the region nor a segment of the pattern comes to dots. -/
  unchanged_iff : Uri.removeDots (base ++ path) = base ++ path ↔
    ¬ NamesDots region families op.pattern ∧
      ∀ segment ∈ op.segments, ¬ Uri.IsDots (op.spelledSegment segment)
  /-- Where the literal segments are no dots, it is the region or a segment with a slot. -/
  blamed : (∀ segment ∈ op.segments, (∀ name, .slot name ∉ segment) →
      ¬ Uri.IsDots (op.spelledSegment segment)) →
    Uri.removeDots (base ++ path) ≠ base ++ path →
    NamesDots region families op.pattern ∨ ∃ segment ∈ op.segments,
      (∃ name, .slot name ∈ segment) ∧ Uri.IsDots (op.spelledSegment segment)

theorem IsTail.toList {tail : String} (ends : IsTail tail) :
    tail.toList = [] ∨ ∃ back, tail.toList = '?' :: back ∨ tail.toList = '#' :: back := by
  rcases ends with rfl | ⟨back, rfl | rfl⟩
  · exact .inl rfl
  · exact .inr ⟨back.toList, .inl (by rw [String.toList_append]; rfl)⟩
  · exact .inr ⟨back.toList, .inr (by rw [String.toList_append]; rfl)⟩

/-- The path that is read in an address ends where a query or a fragment begins. -/
theorem path_of_tail {o : Origin} {scheme : String}
    (std : Uri.IsStandard o.scheme.toList scheme) {front tail : String} {rest : List Char}
    (absolute : front.toList = '/' :: rest) (plain : ∀ c ∈ front.toList, c ≠ '?' ∧ c ≠ '#')
    (ends : IsTail tail) {uri : Uri} (ok : Uri.parse (o.text ++ (front ++ tail)) = .ok uri) :
    uri.path = front := by
  have begins : (front ++ tail).toList = '/' :: (rest ++ tail.toList) := by
    rw [String.toList_append, absolute, List.cons_append]
  obtain ⟨-, target, read, found⟩ := Origin.parse_append std begins (by decide) ok
  rw [String.toList_append] at read
  have nonempty : front.toList ≠ [] := by
    rw [absolute]
    exact List.cons_ne_nil _ _
  rw [Uri.path_of_targetText plain nonempty ends.toList read found, String.ofList_toList]

/-- **Dot segments in addresses.** Of every operation that can be rendered, whatever is bound to its
slots and whatever the region is, the path of the address is kept when dot segments are removed,
unless the region is one dot or two and part of the path, or a segment of the pattern is, with the
values in the place of its slots. -/
theorem climbLaw_of_render (origin : Origin) {scheme : String}
    (std : Uri.IsStandard origin.scheme.toList scheme) (given : String)
    (spelled : given = origin.text ∨ given = origin.text ++ "/") (region : Option Region)
    (families : List String) (op : Operation) {rendered : String} (ok : op.render = .ok rendered) :
    ∃ base path tail : String, ClimbLaw origin region families op base path tail
      (((Router.over given region families).route op).url rendered) := by
  have home := Router.origin_over spelled region families
  have located : IsBase region families op.pattern
      ((Router.over given region families).select op.pattern).path :=
    (Router.over given region families).isBase_select op.pattern
  generalize Router.over given region families = router at home located ⊢
  obtain ⟨path, tail, rfl, ends, written, plain⟩ := segments_of_render ok
  have url := router.url_route op path tail
  rw [home] at url
  generalize (router.select op.pattern).path = base at located url
  obtain ⟨front, based, free, named⟩ := located.exists_segments
  have segmented : (base ++ path).toList =
      Uri.pathOf (front ++ op.segments.map op.writtenSegment) := by
    rw [String.toList_append, based, written, Uri.pathOf, Uri.pathOf, Uri.pathOf,
      List.flatMap_append]
  have noSlash : ∀ segment ∈ front ++ op.segments.map op.writtenSegment, '/' ∉ segment := by
    rw [List.forall_mem_append, List.forall_mem_map]
    exact ⟨free, fun segment among => op.slash_not_mem_writtenSegment among⟩
  have unchanged : Uri.removeDots (base ++ path) = base ++ path ↔
      ¬ NamesDots region families op.pattern ∧
        ∀ segment ∈ op.segments, ¬ Uri.IsDots (op.spelledSegment segment) := by
    rw [Uri.removeDots_eq_self_iff segmented noSlash, List.forall_mem_append, named,
      List.forall_mem_map]
    simp only [writtenSegment, spelledSegment, Piece.isDots_written_iff]
  refine ⟨base, path, tail, url, located, ends, ?read,
    unchanged, ?blamed⟩
  case read =>
    intro uri parsed
    obtain ⟨rest, starts⟩ := located.exists_cons
    have absolute : (base ++ path).toList = '/' :: (rest ++ path.toList) := by
      rw [String.toList_append, starts, List.cons_append]
    have marks : ∀ c ∈ (base ++ path).toList, c ≠ '?' ∧ c ≠ '#' := by
      rw [String.toList_append, List.forall_mem_append]
      refine ⟨fun c hc => ⟨?_, ?_⟩, plain⟩ <;> rintro rfl
      · exact located.not_mem (.inl rfl) hc
      · exact located.not_mem (.inr rfl) hc
    have joined : origin.text ++ base ++ path ++ tail = origin.text ++ (base ++ path ++ tail) := by
      simp only [String.append_assoc]
    rw [url, joined] at parsed
    exact path_of_tail std absolute marks ends parsed
  case blamed =>
    intro literal changed
    rw [Ne, unchanged, not_and_or, not_not] at changed
    refine changed.imp_right fun dotted => ?_
    simp only [not_forall, not_not] at dotted
    obtain ⟨segment, among, dots⟩ := dotted
    refine ⟨segment, among, ?_, dots⟩
    by_contra noSlot
    exact literal segment among (not_exists.1 noSlot) dots

/-- An operation on the platform of some kind. -/
def platformOf (kind : String) : Operation where
  method := .get
  pattern := "/\x7bkind\x7d/platform"
  params := [("kind", kind)]

/-- Dots beside other characters stay where they are. -/
theorem climbLaw_platformOf :
    Uri.IsStandard cloud.scheme.toList "https" ∧
      (platformOf "a/..").render = .ok "/a%2F../platform" ∧
      ∃ base path tail, ((Router.over cloud.text (some ⟨"us-east-1", by decide⟩)
          regionlessFamilies).route (platformOf "a/..")).url "/a%2F../platform" =
            cloud.text ++ base ++ path ++ tail ∧
        Uri.removeDots (base ++ path) = base ++ path := by
  have std : Uri.IsStandard cloud.scheme.toList "https" := ⟨.inr rfl, by decide⟩
  have ok : (platformOf "a/..").render = .ok "/a%2F../platform" := by decide +kernel
  obtain ⟨base, path, tail, law⟩ := climbLaw_of_render cloud std cloud.text (.inl rfl)
    (some ⟨"us-east-1", by decide⟩) regionlessFamilies _ ok
  have named : ¬ NamesDots (some ⟨"us-east-1", by decide⟩) regionlessFamilies
      (platformOf "a/..").pattern := by
    rintro ⟨_, ⟨⟩, -, dots⟩
    revert dots
    decide
  exact ⟨std, ok, base, path, tail, law.whole, law.unchanged_iff.2 ⟨named, by decide +kernel⟩⟩

/-- A region and a value can climb: two dots for the kind take the region away, and two dots for the
region take away the path to all regions. -/
theorem removeDots_platformOf :
    (∀ segment ∈ (platformOf "..").segments, (∀ name, .slot name ∉ segment) →
        ¬ Uri.IsDots ((platformOf "..").spelledSegment segment)) ∧
      (platformOf "..").render = .ok "/../platform" ∧
      (∃ r, Region.parse "us-east-1" = .ok r ∧
        ((Router.over cloud.text (some r) regionlessFamilies).route (platformOf "..")).url
            "/../platform" = cloud.text ++ "/api/v1/regions/us-east-1/../platform") ∧
      Uri.removeDots "/api/v1/regions/us-east-1/../platform" = "/api/v1/regions/platform" ∧
      (∃ r, Region.parse ".." = .ok r ∧
        ((Router.over cloud.text (some r) regionlessFamilies).route (platformOf "x")).url
            "/x/platform" = cloud.text ++ "/api/v1/regions/../x/platform") ∧
      Uri.removeDots "/api/v1/regions/../x/platform" = "/api/v1/x/platform" := by
  refine ⟨?_, by decide +kernel, ⟨⟨"us-east-1", by decide⟩, rfl, by decide +kernel⟩,
    by decide +kernel, ⟨⟨"..", by decide⟩, rfl, by decide +kernel⟩, by decide +kernel⟩
  have segmented : (platformOf "..").segments =
      [[.slot "kind"], "platform".toList.map .char] := by decide +kernel
  rw [segmented, List.forall_mem_cons, List.forall_mem_singleton]
  exact ⟨fun noSlot => absurd (List.mem_singleton_self _) (noSlot "kind"),
    fun _ => by decide +kernel⟩

end Operation
end Api
end Courier
