import Courier.Api.Config
import Courier.Proofs.Addressing
import Courier.Transport.Draft
import Mathlib.Data.List.DropRight

/-!
# Hosts

What a configured host says of the requests that are made with it. A host is an origin, perhaps
with a slash behind it, and every request goes to its authority, below the base path. Only a
fragment is not looked at: it stays in the origin and takes in every path that is put behind it.

## Main results

* `Uri.parse_standard` — the parts of a text with one of the two standard schemes.
* `Api.ApiConfig.hostLaw_of_origin` — what is known of a host that has an origin.
-/
namespace Courier

/-! ## Letters of any case -/

/-- No capital letter becomes one of the characters before the small letters. -/
theorem Text.eq_of_toLower_eq {c m : Char} (h : c.toLower = m) (before : m.toNat < 97) : c = m := by
  by_cases capital : 'A'.val ≤ c.val ∧ c.val ≤ 'Z'.val
  · have raised : c.toLower.val = c.val + ('a'.val - 'A'.val) := congrArg Char.val (dif_pos capital)
    have apart : ('a'.val - 'A'.val).toNat = 32 := rfl
    have least : 65 ≤ c.val.toNat := UInt32.le_iff_toNat_le.mp capital.1
    have most : c.val.toNat ≤ 90 := UInt32.le_iff_toNat_le.mp capital.2
    have beyond : m.toNat = c.val.toNat + 32 := by
      rw [← h, Char.toNat, raised, UInt32.toNat_add, apart]
      exact Nat.mod_eq_of_lt (by omega)
    omega
  · have kept : c.toLower = c := dif_neg capital
    exact kept.symm.trans h

theorem Text.dropSlashes_idem (text : String) :
    Text.dropSlashes (Text.dropSlashes text) = Text.dropSlashes text := by
  simp [Text.dropSlashes, Text.dropEnd, List.dropWhile_idempotent]

/-- No slash is left at the end. -/
theorem Text.getLast?_dropSlashes (text : String) :
    (Text.dropSlashes text).toList.getLast? ≠ some '/' := by
  intro slash
  have kept := List.head?_dropWhile_not (· == '/') text.toList.reverse
  simp only [Text.dropSlashes, Text.dropEnd, String.toList_ofList, List.getLast?_reverse] at slash
  rw [slash] at kept
  exact absurd kept (by decide)

theorem Text.mem_of_mem_dropSlashes {text : String} {c : Char}
    (h : c ∈ (Text.dropSlashes text).toList) : c ∈ text.toList := by
  simp only [Text.dropSlashes, Text.dropEnd, String.toList_ofList, List.mem_reverse] at h
  exact List.mem_reverse.mp ((List.dropWhile_sublist _).mem h)

theorem Text.mem_of_mem_trim {text : String} {c : Char} (h : c ∈ (Text.trim text).toList) :
    c ∈ text.toList := by
  simp only [Text.trim, Text.dropEnd, String.toList_ofList, List.mem_reverse] at h
  have inner := (List.dropWhile_sublist _).mem h
  exact (List.dropWhile_sublist _).mem (List.mem_reverse.mp inner)

/-- A text that has a mark in it is cut at the last one. -/
theorem exists_last_mark {mark : Char} {cs : List Char} (h : mark ∈ cs) :
    ∃ front back, cs = front ++ mark :: back ∧ mark ∉ back := by
  obtain ⟨front, back, split, first⟩ := List.eq_append_cons_of_mem (List.mem_reverse.mpr h)
  refine ⟨back.reverse, front.reverse, ?_, fun inside => first (List.mem_reverse.mp inside)⟩
  rw [← List.reverse_reverse cs, split]
  simp

theorem exists_of_bind_eq_ok {ε α β : Type} {r : Except ε α} {f : α → Except ε β} {b : β}
    (h : (r >>= f) = .ok b) : ∃ a, r = .ok a ∧ f a = .ok b := by
  cases r with
  | error e => cases h
  | ok a => exact ⟨a, rfl, h⟩

theorem eq_ok_of_toOption {ε α : Type} {r : Except ε α} {a : α} (h : r.toOption = some a) :
    r = .ok a := by
  cases r with
  | error e => cases h
  | ok b => exact congrArg _ (Option.some.inj h)

namespace Uri

theorem startsWithIgnoringCase_iff (p cs : List Char) :
    startsWithIgnoringCase p cs = true ↔ p <+: cs.map Char.toLower := by
  induction p generalizing cs with
  | nil => simp [startsWithIgnoringCase]
  | cons a p ih =>
    cases cs with
    | nil => simp [startsWithIgnoringCase]
    | cons c cs => simp [startsWithIgnoringCase, ih, List.cons_prefix_cons]

/-! ## Schemes -/

/-- What stands between a scheme and an authority. -/
def mark : List Char := [':', '/', '/']

/-- A name of one of the two standard schemes, in any case. -/
structure IsStandard (name : List Char) (scheme : String) : Prop where
  known : scheme = "http" ∨ scheme = "https"
  lower : name.map Char.toLower = scheme.toList

/-- There is no mark in the name of a standard scheme. -/
theorem IsStandard.plain {name : List Char} {scheme : String} (h : IsStandard name scheme) :
    ∀ c ∈ name, endsAuthority c = false := by
  intro c hc
  have mem : c.toLower ∈ scheme.toList := by
    rw [← h.lower]
    exact List.mem_map_of_mem hc
  simp only [endsAuthority, Bool.or_eq_false_iff, beq_eq_false_iff_ne]
  refine ⟨⟨?_, ?_⟩, ?_⟩ <;>
  · rintro rfl
    rcases h.known with rfl | rfl <;> exact absurd mem (by decide)

/-- The name of a standard scheme has more than one letter. -/
theorem IsStandard.exists_cons {name : List Char} {scheme : String} (h : IsStandard name scheme) :
    ∃ a b rest, name = a :: b :: rest := by
  obtain ⟨tail, starts⟩ : ∃ tail, scheme.toList = 'h' :: 't' :: tail := by
    rcases h.known with rfl | rfl <;> exact ⟨_, rfl⟩
  have lower := h.lower
  rw [starts] at lower
  obtain ⟨a, more, rfl, -, lower⟩ := List.map_eq_cons_iff.mp lower
  obtain ⟨b, rest, rfl, -, -⟩ := List.map_eq_cons_iff.mp lower
  exact ⟨a, b, rest, rfl⟩

/-- A text that starts with a scheme, in any case, and the mark behind it. -/
theorem exists_name_of_startsWith (scheme : List Char) {cs : List Char}
    (h : startsWithIgnoringCase (scheme ++ mark) cs = true) :
    ∃ name rest, name.map Char.toLower = scheme ∧ cs = name ++ mark ++ rest := by
  obtain ⟨rest, whole⟩ := (startsWithIgnoringCase_iff _ _).mp h
  obtain ⟨head, rest, rfl, lowered, -⟩ := List.map_eq_append_iff.mp whole.symm
  obtain ⟨name, marked, rfl, lower, same⟩ := List.map_eq_append_iff.mp lowered
  have unmoved : marked = mark := by
    obtain ⟨a, marked, rfl, ha, same⟩ := List.map_eq_cons_iff.mp same
    obtain ⟨b, marked, rfl, hb, same⟩ := List.map_eq_cons_iff.mp same
    obtain ⟨c, marked, rfl, hc, same⟩ := List.map_eq_cons_iff.mp same
    rw [Text.eq_of_toLower_eq ha (by decide), Text.eq_of_toLower_eq hb (by decide),
      Text.eq_of_toLower_eq hc (by decide), List.map_eq_nil_iff.mp same]
    rfl
  exact ⟨name, rest, lower, by rw [unmoved]⟩

theorem splitScheme_standard {name : List Char} {scheme : String} (h : IsStandard name scheme)
    (rest : List Char) : splitScheme (name ++ mark ++ rest) = .ok (some scheme, rest) := by
  have lowered : (name ++ mark ++ rest).map Char.toLower =
      scheme.toList ++ mark ++ rest.map Char.toLower := by
    rw [List.map_append, List.map_append, h.lower]
    rfl
  have length : name.length = scheme.toList.length := by
    simpa using congrArg List.length h.lower
  rcases h.known with rfl | rfl
  · have starts : startsWithIgnoringCase "http://".toList (name ++ mark ++ rest) = true := by
      rw [startsWithIgnoringCase_iff, lowered]
      exact ⟨_, rfl⟩
    have cut : (name ++ mark ++ rest).drop 7 = rest :=
      List.drop_left' (by simp [length, mark])
    rw [splitScheme, if_pos starts, cut]
  · have other : ¬ startsWithIgnoringCase "http://".toList (name ++ mark ++ rest) = true := by
      rw [startsWithIgnoringCase_iff, lowered]
      simp [mark]
    have starts : startsWithIgnoringCase "https://".toList (name ++ mark ++ rest) = true := by
      rw [startsWithIgnoringCase_iff, lowered]
      exact ⟨_, rfl⟩
    have cut : (name ++ mark ++ rest).drop 8 = rest :=
      List.drop_left' (by simp [length, mark])
    rw [splitScheme, if_neg other, if_pos starts, cut]

theorem standard_of_splitScheme {cs rest : List Char} {scheme : String}
    (known : scheme = "http" ∨ scheme = "https") (ok : splitScheme cs = .ok (some scheme, rest)) :
    ∃ name, IsStandard name scheme ∧ cs = name ++ mark ++ rest := by
  by_cases http : startsWithIgnoringCase "http://".toList cs = true
  · obtain ⟨name, back, lower, rfl⟩ := exists_name_of_startsWith "http".toList http
    have std : IsStandard name "http" := ⟨.inl rfl, lower⟩
    rw [splitScheme_standard std] at ok
    cases Except.ok.inj ok
    exact ⟨name, std, rfl⟩
  by_cases https : startsWithIgnoringCase "https://".toList cs = true
  · obtain ⟨name, back, lower, rfl⟩ := exists_name_of_startsWith "https".toList https
    have std : IsStandard name "https" := ⟨.inr rfl, lower⟩
    rw [splitScheme_standard std] at ok
    cases Except.ok.inj ok
    exact ⟨name, std, rfl⟩
  -- A scheme that is read letter by letter is a standard one only in small letters.
  rw [splitScheme, if_neg http, if_neg https] at ok
  split at ok
  · cases ok
  split at ok
  next back found =>
    simp only at ok
    split at ok
    · cases ok
    · cases Except.ok.inj ok
      refine ⟨cs.takeWhile isSchemeChar, ⟨known, ?_⟩, ?_⟩
      · rw [String.toList_ofList]
        rcases known with h | h <;>
        · rw [← String.toList_inj, String.toList_ofList] at h
          rw [h]
          decide
      · have whole := List.takeWhile_append_dropWhile (p := isSchemeChar) (l := cs)
        rw [found] at whole
        simpa [mark] using whole.symm
  · cases ok

/-! ## Authorities and targets -/

theorem splitAuthority_eq_ok {cs front rest : List Char}
    (ok : splitAuthority cs = .ok (front, rest)) :
    front = cs.takeWhile (fun c => !endsAuthority c) ∧
      rest = cs.dropWhile (fun c => !endsAuthority c) := by
  rw [splitAuthority] at ok
  split at ok
  · cases ok
  simp only at ok
  split at ok
  · cases ok
  split at ok
  · cases Except.ok.inj ok
    exact ⟨rfl, rfl⟩
  · cases ok

/-- The authority that is found is the same whatever begins with a mark behind it. -/
theorem front_of_splitAuthority {front rest front' rest' : List Char}
    (plain : ∀ c ∈ front, endsAuthority c = false)
    (ends : rest = [] ∨ ∃ c back, rest = c :: back ∧ endsAuthority c = true)
    (ok : splitAuthority (front ++ rest) = .ok (front', rest')) :
    front' = front ∧ rest' = rest := by
  obtain ⟨rfl, rfl⟩ := splitAuthority_eq_ok ok
  have passed : ∀ c ∈ front, (!endsAuthority c) = true := fun c hc => by rw [plain c hc]; rfl
  rw [List.takeWhile_append_of_pos passed, List.dropWhile_append_of_pos passed]
  rcases ends with rfl | ⟨c, back, rfl, mark⟩
  · simp
  · simp [mark]

theorem targetText_eq_nil {cs : List Char} (ok : targetText cs = .ok []) :
    cs = [] ∨ ∃ back, cs = '#' :: back := by
  cases cs with
  | nil => exact .inl rfl
  | cons c cs =>
    rw [targetText] at ok
    split at ok
    · obtain ⟨_, -, whole⟩ := exists_of_map_eq_ok ok
      cases whole
    split at ok
    next hash => exact .inr ⟨cs, by rw [eq_of_beq hash]⟩
    split at ok
    · obtain ⟨_, -, whole⟩ := exists_of_map_eq_ok ok
      cases whole
    · cases ok

theorem targetText_eq_slash {cs : List Char} (ok : targetText cs = .ok ['/']) :
    ∃ back, cs = '/' :: back ∧ targetText back = .ok [] := by
  cases cs with
  | nil => cases ok
  | cons c cs =>
    rw [targetText] at ok
    split at ok
    next query =>
      obtain ⟨_, -, whole⟩ := exists_of_map_eq_ok ok
      rw [eq_of_beq query] at whole
      cases whole
    split at ok
    · cases ok
    split at ok
    · obtain ⟨back, read, whole⟩ := exists_of_map_eq_ok ok
      cases whole
      exact ⟨cs, rfl, read⟩
    · cases ok

/-- Characters that open neither query nor fragment are the beginning of the target. -/
theorem targetText_append {front rest target : List Char} (plain : ∀ c ∈ front, c ≠ '?' ∧ c ≠ '#')
    (ok : targetText (front ++ rest) = .ok target) :
    ∃ back, targetText rest = .ok back ∧ target = front ++ back := by
  induction front generalizing target with
  | nil => exact ⟨target, ok, rfl⟩
  | cons c front ih =>
    obtain ⟨noQuery, noFragment⟩ := plain c (List.mem_cons_self ..)
    rw [List.cons_append, targetText, if_neg (by simpa using noQuery),
      if_neg (by simpa using noFragment)] at ok
    split at ok
    · obtain ⟨later, read, rfl⟩ := exists_of_map_eq_ok ok
      obtain ⟨back, silent, rfl⟩ := ih (fun c hc => plain c (List.mem_cons_of_mem _ hc)) read
      exact ⟨back, silent, rfl⟩
    · cases ok

/-- A path begins with whatever its target begins with before any question mark. -/
theorem prefix_path {uri : Uri} {front target : List Char} (nonempty : front ≠ [])
    (plain : '?' ∉ front) (begins : front <+: target)
    (found : uri.target = some (String.ofList target)) : front <+: uri.path.toList := by
  obtain ⟨back, rfl⟩ := begins
  have passed : ∀ c ∈ front, (c != '?') = true := by
    intro c hc
    rw [bne_iff_ne]
    rintro rfl
    exact plain hc
  have whole : (front ++ back).takeWhile (· != '?') = front ++ back.takeWhile (· != '?') :=
    List.takeWhile_append_of_pos passed
  simp [path, found, whole, nonempty]

/-- A target without path and query is empty or a slash. -/
theorem target_of_bare {uri : Uri} {target : List Char}
    (found : uri.target = some (String.ofList target)) (bare : uri.path = "" ∨ uri.path = "/")
    (noQuery : uri.query? = none) : target = [] ∨ target = ['/'] := by
  have all : target.dropWhile (· != '?') = [] := by
    cases rest : target.dropWhile (· != '?') with
    | nil => rfl
    | cons c rest => simp [query?, found, rest] at noQuery
  have whole := List.takeWhile_append_dropWhile (p := (· != '?')) (l := target)
  rw [all, List.append_nil] at whole
  by_cases empty : target = []
  · exact .inl empty
  · have same : uri.path = String.ofList target := by simp [path, found, whole, empty]
    rw [same, ← String.toList_inj, ← String.toList_inj, String.toList_ofList] at bare
    exact .inr (bare.resolve_left empty)

/-! ## Texts with one of the two standard schemes -/

theorem one_lt_utf8ByteSize {text : String} {c d : Char} {rest : List Char}
    (written : text.toList = c :: d :: rest) : 1 < text.utf8ByteSize := by
  have whole : text = String.singleton c ++ (String.singleton d ++ String.ofList rest) := by
    rw [← String.toList_inj, written]
    simp
  have hc := c.utf8Size_pos
  have hd := d.utf8Size_pos
  rw [whole, String.utf8ByteSize_append, String.utf8ByteSize_append, String.utf8ByteSize_singleton,
    String.utf8ByteSize_singleton]
  omega

/-- What is not read in full has no scheme and is a target or a single octet. -/
theorem parse_cases {text : String} {uri : Uri} (ok : parse text = .ok uri) :
    parseFull text.toList = .ok uri ∨
      uri.scheme = none ∧ (text.toList.head? = some '/' ∨ text.utf8ByteSize = 1) := by
  rw [parse] at ok
  split at ok
  · cases ok
  split at ok
  · cases ok
  next written =>
    cases Except.ok.inj ok
    exact .inr ⟨rfl, .inl (by rw [written]; rfl)⟩
  next written =>
    cases Except.ok.inj ok
    have size : text = "*" := String.toList_inj.mp written
    exact .inr ⟨rfl, .inr (by rw [size]; rfl)⟩
  next written =>
    obtain ⟨_, -, rfl⟩ := exists_of_map_eq_ok ok
    exact .inr ⟨rfl, .inl (by rw [written]; rfl)⟩
  next =>
    split at ok
    next size =>
      refine .inr ⟨?_, .inr size⟩
      split at ok
      · cases ok
      split at ok
      · cases Except.ok.inj ok
        rfl
      · cases ok
    · exact .inl ok

/-- What is read in full has its parts. -/
theorem parseFull_eq_ok {cs : List Char} {uri : Uri} (ok : parseFull cs = .ok uri) :
    ∃ rest front back, splitScheme cs = .ok (uri.scheme, rest) ∧
      splitAuthority rest = .ok (front, back) ∧
      (uri.scheme = none ∨ front ≠ [] ∧ uri.authority = some (String.ofList front) ∧
        ∃ target, targetText back = .ok target ∧ uri.target = some (String.ofList target)) := by
  obtain ⟨⟨scheme, rest⟩, schemed, ok⟩ := exists_of_bind_eq_ok ok
  obtain ⟨⟨front, back⟩, named, ok⟩ := exists_of_bind_eq_ok ok
  refine ⟨rest, front, back, ?_⟩
  cases scheme with
  | none =>
    simp only at ok
    split at ok
    · cases Except.ok.inj ok
      exact ⟨schemed, named, .inl rfl⟩
    · cases ok
  | some scheme =>
    simp only at ok
    split at ok
    · cases ok
    next filled =>
      obtain ⟨target, read, ok⟩ := exists_of_bind_eq_ok ok
      cases Except.ok.inj ok
      exact ⟨schemed, named, .inr ⟨by simpa using filled, rfl, target, read, rfl⟩⟩

/-- **A text with a standard scheme** is the scheme as it is written, the mark, an authority and
what is left of it. -/
theorem standard_of_parse {text : String} {uri : Uri} {scheme : String}
    (known : scheme = "http" ∨ scheme = "https") (schemed : uri.scheme = some scheme)
    (ok : parse text = .ok uri) : ∃ name front back target, IsStandard name scheme ∧
      text.toList = name ++ mark ++ (front ++ back) ∧ front ≠ [] ∧
      (∀ c ∈ front, endsAuthority c = false) ∧ uri.authority = some (String.ofList front) ∧
      targetText back = .ok target ∧ uri.target = some (String.ofList target) := by
  rcases parse_cases ok with full | ⟨none, -⟩
  · obtain ⟨rest, front, back, split, named, parts⟩ := parseFull_eq_ok full
    rw [schemed] at split parts
    obtain ⟨nonempty, authority, target, read, found⟩ := parts.resolve_left nofun
    obtain ⟨name, std, whole⟩ := standard_of_splitScheme known split
    obtain ⟨rfl, rfl⟩ := splitAuthority_eq_ok named
    refine ⟨name, _, _, target, std, ?_, nonempty, ?_, authority, read, found⟩
    · rw [List.takeWhile_append_dropWhile, whole]
    · intro c hc
      simpa using List.mem_takeWhile_imp hc
  · rw [schemed] at none
    cases none

/-- **The parts of a text with a standard scheme**, however they are written. -/
theorem parse_standard {text : String} {uri : Uri} {name front back : List Char} {scheme : String}
    (std : IsStandard name scheme) (written : text.toList = name ++ mark ++ (front ++ back))
    (plain : ∀ c ∈ front, endsAuthority c = false)
    (ends : back = [] ∨ ∃ c rest, back = c :: rest ∧ endsAuthority c = true)
    (ok : parse text = .ok uri) : uri.authority = some (String.ofList front) ∧
      ∃ target, targetText back = .ok target ∧ uri.target = some (String.ofList target) := by
  have split := splitScheme_standard std (front ++ back)
  rw [← written] at split
  have full : parseFull text.toList = .ok uri := by
    refine (parse_cases ok).resolve_right ?_
    obtain ⟨a, b, rest, rfl⟩ := std.exists_cons
    rintro ⟨-, first | single⟩
    · have letter := std.plain a (List.mem_cons_self ..)
      rw [written] at first
      rw [Option.some.inj first] at letter
      exact absurd letter (by decide)
    · have long := one_lt_utf8ByteSize written
      omega
  obtain ⟨rest, front', back', split', named, parts⟩ := parseFull_eq_ok full
  obtain ⟨same, rfl⟩ := Prod.mk.inj (Except.ok.inj (split.symm.trans split'))
  obtain ⟨rfl, rfl⟩ := front_of_splitAuthority plain ends named
  have schemed : uri.scheme ≠ none := by
    rw [← same]
    exact Option.some_ne_none scheme
  exact (parts.resolve_left schemed).2

end Uri

/-! ## Hosts -/

namespace Api
namespace ApiConfig

theorem origin_eq_ok {config : ApiConfig} {origin : String} (ok : config.origin = .ok origin) :
    hostFault (Text.trim config.host) = none ∧
      origin = Text.dropSlashes (Text.trim config.host) := by
  rw [ApiConfig.origin] at ok
  split at ok
  · cases ok
  split at ok
  · cases ok
  next sound => exact ⟨sound, (Except.ok.inj ok).symm⟩

/-- A host without fault is a URI with a standard scheme and has neither path nor query. -/
theorem uri_of_hostFault {host : String} (sound : hostFault host = none) :
    ∃ uri scheme, Uri.parse host = .ok uri ∧ uri.scheme = some scheme ∧
      (scheme = "http" ∨ scheme = "https") ∧ (uri.path = "" ∨ uri.path = "/") ∧
      uri.query? = none := by
  rw [hostFault] at sound
  split at sound
  · cases sound
  next uri read =>
    split at sound
    · cases sound
    next scheme schemed =>
      split at sound
      · cases sound
      next known =>
        split at sound
        · cases sound
        split at sound
        · cases sound
        next bare =>
          obtain ⟨noPath, noQuery⟩ := not_or.mp bare
          exact ⟨uri, scheme, read, schemed, by grind, by grind, by simpa using noQuery⟩

end ApiConfig

/-! ## Addresses of hosts -/

/-- A fragment, perhaps behind a slash. -/
def IsFragment (tail : String) : Prop := ∃ back, tail = "#" ++ back ∨ tail = "/#" ++ back

/-- A fragment is never empty. -/
theorem IsFragment.ne_empty {tail : String} (h : IsFragment tail) : tail ≠ "" := by
  rintro rfl
  obtain ⟨back, h | h⟩ := h <;> simpa using congrArg String.toList h

theorem IsFragment.mem {tail : String} (h : IsFragment tail) : '#' ∈ tail.toList := by
  obtain ⟨back, rfl | rfl⟩ := h <;> simp

namespace Origin

variable {o : Origin} {scheme : String} (std : Uri.IsStandard o.scheme.toList scheme)
include std

/-- The authority that is read in an address is that of its origin. -/
theorem parse_append {back : String} {c : Char} {rest : List Char} {uri : Uri}
    (begins : back.toList = c :: rest) (mark : Uri.endsAuthority c = true)
    (ok : Uri.parse (o.text ++ back) = .ok uri) : uri.authority = some o.authority ∧
      ∃ target, Uri.targetText back.toList = .ok target ∧
        uri.target = some (String.ofList target) := by
  have written : (o.text ++ back).toList =
      o.scheme.toList ++ Uri.mark ++ (o.authority.toList ++ back.toList) := by
    rw [String.toList_append, toList_text, List.append_assoc _ o.authority.toList]
    rfl
  have plain : ∀ c ∈ o.authority.toList, Uri.endsAuthority c = false := fun c hc =>
    o.plain c (List.mem_append_right _ hc)
  have parts := Uri.parse_standard std written plain (.inr ⟨c, rest, begins, mark⟩) ok
  rwa [String.ofList_toList] at parts

/-- The path that is read in an address begins with the base path. -/
theorem prefix_path {region : Option Region} {families : List String} {pattern base : String}
    (located : IsBase region families pattern base) {path : String} {uri : Uri}
    (ok : Uri.parse (o.text ++ (base ++ path)) = .ok uri) :
    uri.authority = some o.authority ∧ base.toList <+: uri.path.toList := by
  obtain ⟨rest, starts⟩ := located.exists_cons
  have begins : (base ++ path).toList = '/' :: (rest ++ path.toList) := by
    rw [String.toList_append, starts]
    rfl
  obtain ⟨authority, target, read, found⟩ := parse_append std begins (by decide) ok
  rw [String.toList_append] at read
  have plain : ∀ c ∈ base.toList, c ≠ '?' ∧ c ≠ '#' := by
    intro c hc
    constructor
    · rintro rfl
      exact located.not_mem (.inl rfl) hc
    · rintro rfl
      exact located.not_mem (.inr rfl) hc
  have nonempty : base.toList ≠ [] := by
    rw [starts]
    exact List.cons_ne_nil _ _
  obtain ⟨back, -, rfl⟩ := Uri.targetText_append plain read
  exact ⟨authority, Uri.prefix_path nonempty (located.not_mem (.inl rfl))
    (List.prefix_append _ back) found⟩

/-- Whatever is put behind a fragment is lost. -/
theorem path_of_fragment {tail path : String} (fragment : IsFragment tail) {uri : Uri}
    (ok : Uri.parse (o.text ++ (tail ++ path)) = .ok uri) :
    uri.authority = some o.authority ∧ uri.path = "/" := by
  obtain ⟨back, rfl | rfl⟩ := fragment
  · have begins : ("#" ++ back ++ path).toList = '#' :: (back ++ path).toList := by simp
    obtain ⟨authority, target, read, found⟩ := parse_append std begins (by decide) ok
    rw [begins] at read
    cases Except.ok.inj read
    exact ⟨authority, by rw [Uri.path, found]; rfl⟩
  · have begins : ("/#" ++ back ++ path).toList = '/' :: '#' :: (back ++ path).toList := by simp
    obtain ⟨authority, target, read, found⟩ := parse_append std begins (by decide) ok
    rw [begins] at read
    cases Except.ok.inj read
    exact ⟨authority, by rw [Uri.path, found]; rfl⟩

end Origin

/-- An authority and a name without marks are those of an origin. -/
theorem Origin.exists_of_standard {name front : List Char} {scheme : String}
    (std : Uri.IsStandard name scheme) (nonempty : front ≠ [])
    (plain : ∀ c ∈ front, Uri.endsAuthority c = false) :
    ∃ o : Origin, name = o.scheme.toList ∧ front = o.authority.toList := by
  refine ⟨⟨String.ofList name, String.ofList front, ?_, ?_⟩, ?_, ?_⟩
  · simpa using nonempty
  · intro c hc
    simp only [String.toList_ofList, List.mem_append] at hc
    exact hc.elim (std.plain c) (plain c)
  · simp
  · simp

theorem parse_of_checkUrl {security : Security} {url : String} {uri : Uri}
    (ok : Draft.checkUrl security url = .ok uri) : Uri.parse url = .ok uri := by
  rw [Draft.checkUrl] at ok
  split at ok
  · cases ok
  next read =>
    split at ok
    · cases ok
    split at ok <;> cases ok
    all_goals exact read

/-- What is left of the end of a host when its slashes are dropped is empty or a fragment. -/
theorem fragment_of_back {back target : List Char} (read : Uri.targetText back = .ok target)
    (bare : target = [] ∨ target = ['/']) :
    Text.dropSlashes (String.ofList back) = "" ∨
      IsFragment (Text.dropSlashes (String.ofList back)) := by
  rcases bare with rfl | rfl
  · rcases Uri.targetText_eq_nil read with rfl | ⟨rest, rfl⟩
    · exact .inl rfl
    · have ends : "#".toList = [] ++ ['#'] := rfl
      have kept := Text.dropSlashes_append ends (by decide) (String.ofList rest)
      rw [String.ofList_cons]
      exact .inr ⟨_, .inl kept⟩
  · obtain ⟨rest, rfl, silent⟩ := Uri.targetText_eq_slash read
    rcases Uri.targetText_eq_nil silent with rfl | ⟨rest, rfl⟩
    · exact .inl (by decide)
    · have ends : "/#".toList = ['/'] ++ ['#'] := rfl
      have kept := Text.dropSlashes_append ends (by decide) (String.ofList rest)
      rw [String.ofList_cons, String.ofList_cons, ← String.append_assoc]
      exact .inr ⟨_, .inr kept⟩

namespace ApiConfig

/-- What is known of a host that has an origin. -/
structure HostLaw (host origin : String) (o : Origin) (tail : String) : Prop where
  /-- The origin is a scheme, the mark and an authority, unless a fragment stands behind them. -/
  written : origin = o.text ++ tail
  /-- No slash is at the end of the origin. -/
  trimmed : origin.toList.getLast? ≠ some '/'
  /-- The scheme is one of the two standard schemes. -/
  standard : Text.lower o.scheme = "http" ∨ Text.lower o.scheme = "https"
  /-- The authority is that of the host. -/
  named : ∃ uri, Uri.parse (Text.trim host) = .ok uri ∧ uri.authority = some o.authority
  /-- Nothing but a fragment is kept behind the authority … -/
  fragment : tail = "" ∨ IsFragment tail
  /-- … and only if there is one in the host. -/
  plain : '#' ∉ host.toList → tail = ""
  /-- Wherever an operation is routed, its request goes to the authority of the host, and its path
  begins with the base path. Behind a fragment it is lost. -/
  lands : ∀ (region : Option Region) (families : List String) (pattern path : String)
    (security : Security) (uri : Uri),
    Draft.checkUrl security (((Router.over origin region families).select pattern).url path) =
      .ok uri → uri.authority = some o.authority ∧
        if tail = "" then
          ((Router.over origin region families).select pattern).path.toList <+: uri.path.toList
        else uri.path = "/"

/-- **What is known of a host that has an origin.** -/
theorem hostLaw_of_origin {config : ApiConfig} {origin : String} (ok : config.origin = .ok origin) :
    ∃ (o : Origin) (tail : String), HostLaw config.host origin o tail := by
  obtain ⟨sound, dropped⟩ := origin_eq_ok ok
  obtain ⟨home, scheme, read, schemed, known, bare, noQuery⟩ := uri_of_hostFault sound
  obtain ⟨name, front, back, target, std, written, nonempty, plain, authority, silent, found⟩ :=
    Uri.standard_of_parse known schemed read
  obtain ⟨o, rfl, rfl⟩ := Origin.exists_of_standard std nonempty plain
  have whole : Text.trim config.host = o.text ++ String.ofList back := by
    rw [← String.toList_inj, written, String.toList_append, Origin.toList_text,
      String.toList_ofList, List.append_assoc _ o.authority.toList]
    rfl
  have kept : origin = o.text ++ Text.dropSlashes (String.ofList back) := by
    rw [dropped, whole, o.dropSlashes_text_append]
  have fragment := fragment_of_back silent (Uri.target_of_bare found bare noQuery)
  generalize Text.dropSlashes (String.ofList back) = tail at kept fragment
  refine ⟨o, tail, kept, ?trimmed, ?standard, ⟨home, read, ?named⟩, fragment, ?plain, ?lands⟩
  case trimmed =>
    rw [dropped]
    exact Text.getLast?_dropSlashes _
  case standard =>
    rw [Text.lower, std.lower, String.ofList_toList]
    exact known
  case named => rw [authority, String.ofList_toList]
  case plain =>
    intro absent
    refine fragment.resolve_right fun present => absent ?_
    have mem : '#' ∈ origin.toList := by
      rw [kept, String.toList_append]
      exact List.mem_append_right _ present.mem
    rw [dropped] at mem
    exact Text.mem_of_mem_trim (Text.mem_of_mem_dropSlashes mem)
  case lands =>
    intro region families pattern path security uri sent
    have router : (Router.over origin region families).origin = o.text ++ tail := by
      rw [← kept, dropped]
      exact Text.dropSlashes_idem _
    have located : IsBase region families pattern
        ((Router.over origin region families).select pattern).path :=
      (Router.over origin region families).isBase_select pattern
    have sought := parse_of_checkUrl sent
    rw [BasePath.url, Router.origin_select, router, String.append_assoc, String.append_assoc]
      at sought
    rcases fragment with rfl | fragment
    · rw [String.empty_append] at sought
      rw [if_pos rfl]
      exact Origin.prefix_path std located sought
    · rw [if_neg fragment.ne_empty]
      exact Origin.path_of_fragment std fragment sought

/-- A host in capital letters, with a slash behind it. -/
def shouted : ApiConfig where
  host := " HTTPS://Cloud.Example.com:8443/ "

theorem hostLaw_shouted : shouted.origin = .ok "HTTPS://Cloud.Example.com:8443" ∧
    ∃ (o : Origin) (tail : String),
      HostLaw shouted.host "HTTPS://Cloud.Example.com:8443" o tail := by
  have ok : shouted.origin = .ok "HTTPS://Cloud.Example.com:8443" :=
    eq_ok_of_toOption (by decide +kernel)
  exact ⟨ok, hostLaw_of_origin ok⟩

/-- A host with a fragment. -/
def fragmented : ApiConfig where
  host := "https://cloud.example.com#x"

/-- A fragment in a host stays in its origin, and what is sent goes to the root of the host instead
of a path below the base path. -/
theorem path_fragmented : fragmented.origin = .ok "https://cloud.example.com#x" ∧
    ∃ uri, Draft.checkUrl .tlsOnly (((Router.ofOrigin "https://cloud.example.com#x" none).select
        "/platform").url "/platform") = .ok uri ∧
      uri.path = "/" ∧ ¬ "/api/v1".toList <+: uri.path.toList := by
  have ok : fragmented.origin = .ok "https://cloud.example.com#x" :=
    eq_ok_of_toOption (by decide +kernel)
  have sent : Draft.checkUrl .tlsOnly (((Router.ofOrigin "https://cloud.example.com#x" none).select
      "/platform").url "/platform") = .ok ⟨some "https", some "cloud.example.com", some ""⟩ :=
    eq_ok_of_toOption (by decide +kernel)
  exact ⟨ok, _, sent, by decide, by decide⟩

end ApiConfig
end Courier.Api
