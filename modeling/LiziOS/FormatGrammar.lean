import LiziOS.Vsprintf
import Mathlib.Data.List.TakeWhile

namespace LiziOS.Vsprintf

/-! The grammar of formats: literal bytes, and directives in which each stage takes all it can. -/

/-- A width or a precision. -/
inductive Count where
  | absent
  | digits (ds : List U8)
  | star
  deriving DecidableEq

/-- `% flags* (digits or *)? (. (digits or *)?)? (h, l or L)? conv`. The conversion misses where the format
    ends before it. -/
structure Directive where
  flags : List U8
  width : Count
  precision : Option Count
  length : Option U8
  conv : Option U8
  deriving DecidableEq

inductive Token where
  | literal (c : U8)
  | directive (d : Directive)
  deriving DecidableEq

def isFlag (c : U8) : Bool := (flagBit c).isSome

/-- `next` does not go on with a byte of `p`. -/
def Stops (p : U8 → Bool) (next : List U8) : Prop := ∀ c ∈ next.head?, p c = false

namespace Count

def bytes : Count → List U8
  | absent => []
  | digits ds => ds
  | star => [ascii '*']

/-- The count takes all it can of the bytes before `next`. -/
def Greedy (next : List U8) : Count → Prop
  | absent => Stops (fun c => isDigit c || c = ascii '*') next
  | digits ds => ds ≠ [] ∧ (∀ c ∈ ds, isDigit c = true) ∧ Stops isDigit next
  | star => True

end Count

namespace Directive

variable (d : Directive)

def afterLength : List U8 := d.conv.toList

def afterPrecision : List U8 := d.length.toList ++ d.afterLength

def precisionBytes : List U8 :=
  match d.precision with
  | none => []
  | some count => ascii '.' :: count.bytes

def afterWidth : List U8 := d.precisionBytes ++ d.afterPrecision

def afterFlags : List U8 := d.width.bytes ++ d.afterWidth

/-- The bytes behind the `%`. -/
def tail : List U8 := d.flags ++ d.afterFlags

/-- Each stage has the form that the grammar gives it and takes all it can. -/
structure Greedy : Prop where
  flags : ∀ c ∈ d.flags, isFlag c = true
  stops : Stops isFlag d.afterFlags
  width : d.width.Greedy d.afterWidth
  point : d.precision = none → Stops (fun c => c = ascii '.') d.afterPrecision
  precision : ∀ count, d.precision = some count → count.Greedy d.afterPrecision
  length : ∀ c, d.length = some c → isQualifier c = true
  conv : d.length = none → Stops isQualifier d.afterLength

end Directive

namespace Token

def bytes : Token → List U8
  | literal c => [c]
  | directive d => ascii '%' :: d.tail

/-- The token is well formed and may stand before `next`. -/
def Reads (next : List Token) : Token → Prop
  | literal c => c ≠ ascii '%'
  | directive d => d.Greedy ∧ (d.conv = none → next = [])

def StarPrecision : Token → Prop
  | literal _ => False
  | directive d => d.precision = some .star

end Token

def bytesOf (tokens : List Token) : List U8 := tokens.flatMap Token.bytes

def Reads : List Token → Prop
  | [] => True
  | t :: next => t.Reads next ∧ Reads next

/-- `tokens` splits the format into literal bytes and directives. -/
structure Splits (fmt : List U8) (tokens : List Token) : Prop where
  bytes : bytesOf tokens = fmt
  reads : Reads tokens

/-! The split computed. -/

def parseCount : List U8 → Count × List U8
  | [] => (.absent, [])
  | c :: rest =>
    if isDigit c then (.digits (c :: rest.takeWhile isDigit), rest.dropWhile isDigit)
    else if c = ascii '*' then (.star, rest)
    else (.absent, c :: rest)

def parsePrecision : List U8 → Option Count × List U8
  | [] => (none, [])
  | c :: rest => if c = ascii '.' then (some (parseCount rest).1, (parseCount rest).2) else (none, c :: rest)

def parseLength : List U8 → Option U8 × List U8
  | [] => (none, [])
  | c :: rest => if isQualifier c then (some c, rest) else (none, c :: rest)

/-- The directive behind a `%` and the bytes behind it. -/
def parseDirective (rest : List U8) : Directive × List U8 :=
  let width := parseCount (rest.dropWhile isFlag)
  let precision := parsePrecision width.2
  let length := parseLength precision.2
  (⟨rest.takeWhile isFlag, width.1, precision.1, length.1, length.2.head?⟩, length.2.tail)

/-- Each token takes at least one byte of the format. -/
def parse : Nat → List U8 → List Token
  | 0, _ => []
  | _ + 1, [] => []
  | fuel + 1, c :: rest =>
    if c = ascii '%' then
      .directive (parseDirective rest).1 :: parse fuel (parseDirective rest).2
    else .literal c :: parse fuel rest

def tokens (fmt : List U8) : List Token := parse fmt.length fmt

section Stages

variable {p : U8 → Bool} {next more : List U8} {count : Count} {d : Directive}

theorem Stops.append (stops : Stops p next) (last : next = [] → more = []) : Stops p (next ++ more) := by
  cases next with
  | nil => rw [last rfl]; exact stops
  | cons c rest => exact stops

theorem takeWhile_stops {taken : List U8} (all : ∀ c ∈ taken, p c = true) (stops : Stops p next) :
    (taken ++ next).takeWhile p = taken ∧ (taken ++ next).dropWhile p = next := by
  induction taken with
  | nil =>
    cases next with
    | nil => exact ⟨rfl, rfl⟩
    | cons c rest =>
      have no : p c = false := stops c rfl
      exact ⟨List.takeWhile_cons_of_neg (by simp [no]), List.dropWhile_cons_of_neg (by simp [no])⟩
  | cons c taken ih =>
    have yes : p c = true := all c List.mem_cons_self
    obtain ⟨front, back⟩ := ih fun b member => all b (List.mem_cons_of_mem _ member)
    simp [yes, front, back]

theorem dropWhile_head : Stops p (next.dropWhile p) := by
  intro c member
  have head := List.head?_dropWhile_not p next
  rw [Option.mem_def] at member
  rw [member] at head
  simpa using head

theorem parseCount_bytes (greedy : count.Greedy next) : parseCount (count.bytes ++ next) = (count, next) := by
  cases count with
  | absent =>
    cases next with
    | nil => rfl
    | cons c rest =>
      have no := greedy c rfl
      simp only [Bool.or_eq_false_iff, decide_eq_false_iff_not] at no
      simp [Count.bytes, parseCount, no.1, no.2]
  | digits ds =>
    obtain ⟨nonempty, all, stops⟩ := greedy
    obtain ⟨c, ds, rfl⟩ := List.exists_cons_of_ne_nil nonempty
    have span := takeWhile_stops (fun b member => all b (List.mem_cons_of_mem _ member)) stops
    simp [Count.bytes, parseCount, all c List.mem_cons_self, span.1, span.2]
  | star =>
    have no : isDigit (ascii '*') = false := by decide
    simp [Count.bytes, parseCount, no]

theorem parseCount_split (rest : List U8) :
    (parseCount rest).1.bytes ++ (parseCount rest).2 = rest ∧
      (parseCount rest).1.Greedy (parseCount rest).2 := by
  cases rest with
  | nil => exact ⟨rfl, by intro c member; cases member⟩
  | cons c rest =>
    by_cases isDig : isDigit c = true
    · have taken : parseCount (c :: rest) = (.digits (c :: rest.takeWhile isDigit), rest.dropWhile isDigit) :=
        if_pos isDig
      rw [taken]
      refine ⟨by simp [Count.bytes, List.takeWhile_append_dropWhile], by simp, ?_, dropWhile_head⟩
      intro b member
      rcases List.mem_cons.mp member with rfl | member
      · exact isDig
      · exact List.mem_takeWhile_imp member
    · by_cases isStar : c = ascii '*'
      · have taken : parseCount (c :: rest) = (.star, rest) := by rw [parseCount, if_neg isDig, if_pos isStar]
        rw [taken]
        exact ⟨by simp [Count.bytes, isStar], trivial⟩
      · have taken : parseCount (c :: rest) = (.absent, c :: rest) := by
          rw [parseCount, if_neg isDig, if_neg isStar]
        rw [taken]
        refine ⟨rfl, ?_⟩
        intro b member
        cases member
        simp [isDig, isStar]

theorem Stops.of_append (stops : Stops p (next ++ more)) : Stops p next := by
  cases next with
  | nil => intro c member; cases member
  | cons c rest => exact stops

theorem Count.Greedy.append (greedy : count.Greedy next) (last : next = [] → more = []) :
    count.Greedy (next ++ more) := by
  cases count with
  | absent => exact Stops.append greedy last
  | digits ds => exact ⟨greedy.1, greedy.2.1, greedy.2.2.append last⟩
  | star => trivial

theorem Count.Greedy.of_append (greedy : count.Greedy (next ++ more)) : count.Greedy next := by
  cases count with
  | absent => exact Stops.of_append greedy
  | digits ds => exact ⟨greedy.1, greedy.2.1, greedy.2.2.of_append⟩
  | star => trivial

end Stages

/-! A directive is read back from its bytes. -/

section Directives

variable {d : Directive} {more : List U8}

/-- The bytes behind each stage end the format where the conversion is missing. -/
theorem Directive.last (last : d.conv = none → more = []) : d.afterLength = [] → more = [] := by
  unfold Directive.afterLength
  rw [Option.toList_eq_nil_iff]
  exact last

theorem parseLength_bytes (greedy : d.Greedy) (last : d.conv = none → more = []) :
    parseLength (d.afterPrecision ++ more) = (d.length, d.afterLength ++ more) := by
  unfold Directive.afterPrecision
  cases length : d.length with
  | some c => simp [parseLength, greedy.length c length]
  | none =>
    have stops := (greedy.conv length).append (Directive.last last)
    rw [Option.toList_none, List.nil_append]
    cases bytes : d.afterLength ++ more with
    | nil => rfl
    | cons c rest => rw [parseLength, stops c (by rw [bytes]; rfl)]; rfl

theorem Directive.last_precision (last : d.conv = none → more = []) : d.afterPrecision = [] → more = [] := by
  intro empty
  exact Directive.last last (List.append_eq_nil_iff.mp empty).2

theorem parsePrecision_bytes (greedy : d.Greedy) (last : d.conv = none → more = []) :
    parsePrecision (d.afterWidth ++ more) = (d.precision, d.afterPrecision ++ more) := by
  unfold Directive.afterWidth Directive.precisionBytes
  cases precision : d.precision with
  | some count =>
    have taken := (greedy.precision count precision).append (Directive.last_precision last)
    simp [parsePrecision, parseCount_bytes taken]
  | none =>
    have stops := (greedy.point precision).append (Directive.last_precision last)
    rw [List.nil_append]
    cases bytes : d.afterPrecision ++ more with
    | nil => rfl
    | cons c rest =>
      have no : ¬ c = ascii '.' := of_decide_eq_false (stops c (by rw [bytes]; rfl))
      rw [parsePrecision, if_neg no]

theorem Directive.last_width (last : d.conv = none → more = []) : d.afterWidth = [] → more = [] := by
  intro empty
  exact Directive.last_precision last (List.append_eq_nil_iff.mp empty).2

theorem Directive.last_flags (last : d.conv = none → more = []) : d.afterFlags = [] → more = [] := by
  intro empty
  exact Directive.last_width last (List.append_eq_nil_iff.mp empty).2

theorem parseDirective_bytes (greedy : d.Greedy) (last : d.conv = none → more = []) :
    parseDirective (d.tail ++ more) = (d, more) := by
  have flags := takeWhile_stops greedy.flags (greedy.stops.append (Directive.last_flags last))
  rw [← List.append_assoc] at flags
  have width := parseCount_bytes (greedy.width.append (Directive.last_width last))
  rw [← List.append_assoc] at width
  unfold parseDirective Directive.tail
  rw [flags.1, flags.2]
  unfold Directive.afterFlags
  rw [width]
  simp only [parsePrecision_bytes greedy last, parseLength_bytes greedy last]
  have ends : (d.afterLength ++ more).head? = d.conv ∧ (d.afterLength ++ more).tail = more := by
    unfold Directive.afterLength
    cases conv : d.conv with
    | some c => exact ⟨rfl, rfl⟩
    | none =>
      rw [last conv]
      exact ⟨rfl, rfl⟩
  rw [ends.1, ends.2]

theorem parseLength_split (rest : List U8) :
    (parseLength rest).1.toList ++ (parseLength rest).2 = rest ∧
      (∀ c, (parseLength rest).1 = some c → isQualifier c = true) ∧
      ((parseLength rest).1 = none → Stops isQualifier (parseLength rest).2) := by
  cases rest with
  | nil => exact ⟨rfl, by simp [parseLength], by intro _ c member; cases member⟩
  | cons c rest =>
    by_cases qualifier : isQualifier c = true
    · have taken : parseLength (c :: rest) = (some c, rest) := if_pos qualifier
      rw [taken]
      exact ⟨rfl, by rintro b ⟨⟩; exact qualifier, by simp⟩
    · have taken : parseLength (c :: rest) = (none, c :: rest) := if_neg qualifier
      rw [taken]
      refine ⟨rfl, by simp, fun _ b member => ?_⟩
      cases member
      simpa using qualifier

theorem parsePrecision_split (rest : List U8) :
    (match (parsePrecision rest).1 with
      | none => []
      | some count => ascii '.' :: count.bytes) ++ (parsePrecision rest).2 = rest ∧
      (∀ count, (parsePrecision rest).1 = some count → count.Greedy (parsePrecision rest).2) ∧
      ((parsePrecision rest).1 = none → Stops (fun c => c = ascii '.') (parsePrecision rest).2) := by
  cases rest with
  | nil => exact ⟨rfl, by simp [parsePrecision], by intro _ c member; cases member⟩
  | cons c rest =>
    by_cases point : c = ascii '.'
    · have taken : parsePrecision (c :: rest) = (some (parseCount rest).1, (parseCount rest).2) := if_pos point
      rw [taken]
      obtain ⟨bytes, greedy⟩ := parseCount_split rest
      refine ⟨by simp [bytes, point], ?_, by simp⟩
      intro count same
      cases same
      exact greedy
    · have taken : parsePrecision (c :: rest) = (none, c :: rest) := if_neg point
      rw [taken]
      refine ⟨rfl, by simp, fun _ b member => ?_⟩
      cases member
      exact decide_eq_false point

theorem ends_append (bytes : List U8) : bytes.head?.toList ++ bytes.tail = bytes := by
  cases bytes <;> rfl

theorem parseDirective_split (rest : List U8) :
    (parseDirective rest).1.tail ++ (parseDirective rest).2 = rest ∧ (parseDirective rest).1.Greedy ∧
      ((parseDirective rest).1.conv = none → (parseDirective rest).2 = []) := by
  have flags : rest.takeWhile isFlag ++ rest.dropWhile isFlag = rest := List.takeWhile_append_dropWhile
  have stops : Stops isFlag (rest.dropWhile isFlag) := dropWhile_head
  obtain ⟨width, greedy⟩ := parseCount_split (rest.dropWhile isFlag)
  obtain ⟨precision, counts, point⟩ := parsePrecision_split (parseCount (rest.dropWhile isFlag)).2
  obtain ⟨length, qualifier, others⟩ :=
    parseLength_split (parsePrecision (parseCount (rest.dropWhile isFlag)).2).2
  obtain ⟨d, eq⟩ : ∃ d, d = (parseDirective rest).1 := ⟨_, rfl⟩
  obtain ⟨more, behind⟩ : ∃ more, more = (parseDirective rest).2 := ⟨_, rfl⟩
  have conv : d.afterLength ++ more =
      (parseLength (parsePrecision (parseCount (rest.dropWhile isFlag)).2).2).2 := by
    rw [eq, behind]
    exact ends_append _
  have atLength : d.afterPrecision ++ more = (parsePrecision (parseCount (rest.dropWhile isFlag)).2).2 := by
    rw [Directive.afterPrecision, List.append_assoc, conv, eq]
    exact length
  have atPrecision : d.afterWidth ++ more = (parseCount (rest.dropWhile isFlag)).2 := by
    rw [Directive.afterWidth, List.append_assoc, atLength, eq]
    exact precision
  have atWidth : d.afterFlags ++ more = rest.dropWhile isFlag := by
    rw [Directive.afterFlags, List.append_assoc, atPrecision, eq]
    exact width
  rw [← eq, ← behind]
  refine ⟨?_, ⟨?_, ?_, ?_, ?_, ?_, ?_, ?_⟩, ?_⟩
  · rw [Directive.tail, List.append_assoc, atWidth, eq]
    exact flags
  · rw [eq]
    exact fun c member => List.mem_takeWhile_imp member
  · rw [← atWidth] at stops
    exact stops.of_append
  · rw [← atPrecision] at greedy
    rw [eq] at greedy ⊢
    exact Count.Greedy.of_append greedy
  · intro absent
    rw [← atLength] at point
    rw [eq] at point absent ⊢
    exact (point absent).of_append
  · intro count present
    rw [← atLength] at counts
    rw [eq] at counts present ⊢
    exact (counts count present).of_append
  · intro c present
    rw [eq] at present
    exact qualifier c present
  · intro absent
    rw [← conv] at others
    rw [eq] at others absent ⊢
    exact (others absent).of_append
  · intro missing
    rw [eq] at missing
    rw [behind]
    have empty := List.head?_eq_none_iff.mp missing
    exact congrArg List.tail empty

end Directives

/-! Each format has one split. -/

theorem bytesOf_cons (t : Token) (rest : List Token) : bytesOf (t :: rest) = t.bytes ++ bytesOf rest := rfl

theorem parse_splits (fuel : Nat) (fmt : List U8) (enough : fmt.length ≤ fuel) :
    Splits fmt (parse fuel fmt) := by
  induction fuel generalizing fmt with
  | zero =>
    rw [List.length_eq_zero_iff.mp (Nat.le_zero.mp enough)]
    exact ⟨rfl, trivial⟩
  | succ fuel ih =>
    cases fmt with
    | nil => exact ⟨rfl, trivial⟩
    | cons c rest =>
      rw [List.length_cons] at enough
      by_cases percent : c = ascii '%'
      · obtain ⟨bytes, greedy, last⟩ := parseDirective_split rest
        have shorter : (parseDirective rest).2.length ≤ rest.length := by
          have total := congrArg List.length bytes
          rw [List.length_append] at total
          omega
        have others := ih (parseDirective rest).2 (by omega)
        rw [parse, if_pos percent]
        refine ⟨?_, ⟨greedy, fun missing => ?_⟩, others.reads⟩
        · rw [bytesOf_cons, others.bytes, percent, Token.bytes, List.cons_append, bytes]
        · rw [last missing]
          cases fuel <;> rfl
      · have others := ih rest (by omega)
        rw [parse, if_neg percent]
        exact ⟨by rw [bytesOf_cons, others.bytes]; rfl, percent, others.reads⟩

theorem tokens_splits (fmt : List U8) : Splits fmt (tokens fmt) := parse_splits _ fmt le_rfl

theorem parse_bytesOf {split : List Token} (reads : Reads split) (fuel : Nat)
    (enough : (bytesOf split).length ≤ fuel) : parse fuel (bytesOf split) = split := by
  induction split generalizing fuel with
  | nil => cases fuel <;> rfl
  | cons t rest ih =>
    obtain ⟨first, others⟩ := reads
    rw [bytesOf_cons] at enough ⊢
    rw [List.length_append] at enough
    cases t with
    | literal c =>
      cases fuel with
      | zero => cases Nat.le_zero.mp (le_trans (Nat.le_add_right _ _) enough)
      | succ fuel =>
        have shorter : (bytesOf rest).length ≤ fuel := by
          simp only [Token.bytes, List.length_singleton] at enough
          omega
        rw [Token.bytes, List.singleton_append, parse, if_neg first, ih others fuel shorter]
    | directive d =>
      have last : d.conv = none → bytesOf rest = [] := fun missing => by rw [first.2 missing]; rfl
      cases fuel with
      | zero => simp only [Token.bytes, List.length_cons] at enough; omega
      | succ fuel =>
        have shorter : (bytesOf rest).length ≤ fuel := by
          simp only [Token.bytes, List.length_cons] at enough
          omega
        rw [Token.bytes, List.cons_append, parse, if_pos rfl, parseDirective_bytes first.1 last,
          ih others fuel shorter]

theorem Splits.eq_tokens {fmt : List U8} {split : List Token} (splits : Splits fmt split) :
    split = tokens fmt := by
  rw [← splits.bytes]
  exact (parse_bytesOf splits.reads _ le_rfl).symm

end LiziOS.Vsprintf
