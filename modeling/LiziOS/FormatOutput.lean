import LiziOS.FormatParsing

namespace LiziOS.Vsprintf

/-! The output of a whole format. -/

/-- The bytes of a format before its NUL. -/
structure CString where
  bytes : List U8
  noNul : ∀ c ∈ bytes, c ≠ 0

def Token.Counts : Token → Prop
  | literal _ => False
  | directive d => d.conv = some (ascii 'n')

/-- No directive misses its conversion. -/
def Complete (split : List Token) : Prop := ∀ d, Token.directive d ∈ split → d.conv ≠ none

/-- A format has one split into literals and directives, `vsprintf` takes the pieces of this split and
    puts out what they render, it reads the slots of the directives from the left on, and formats can be
    joined. -/
structure Formats (fmt : List U8) : Prop where
  unique : ∃! split, Splits fmt split
  rendered : ∀ split, Splits fmt split → ∀ dbl fuel args mem, fmt.length < fuel →
    vsprintf dbl fuel fmt args mem = (render dbl split 0 args mem).map fun out =>
      ⟨split.map Token.bytes, out.text, out.args, out.mem, returned out.text⟩
  supplied : ∀ split, Splits fmt split → ∀ dbl fuel args mem, fmt.length < fuel → slots split ≤ args.length →
    (∃ r, vsprintf dbl fuel fmt args mem = .ok r ∧ r.args = args.drop (slots split)) ∨
      (vsprintf dbl fuel fmt args mem = .error .unterminated ∧ ∃ t ∈ split, t.ReadsString)
  joined : ∀ split, Splits fmt split → Complete split → ∀ (other : CString) split', Splits other.bytes split' →
    (∀ t ∈ split', ¬ t.StarPrecision ∧ ¬ t.Counts) →
    ∀ dbl fuel args mem r₁ r₂, (fmt ++ other.bytes).length < fuel →
      vsprintf dbl fuel fmt args mem = .ok r₁ → vsprintf dbl fuel other.bytes r₁.args r₁.mem = .ok r₂ →
      vsprintf dbl fuel (fmt ++ other.bytes) args mem =
        .ok ⟨r₁.pieces ++ r₂.pieces, r₁.text ++ r₂.text, r₂.args, r₂.mem, returned (r₁.text ++ r₂.text)⟩

section Output

variable {dbl : Doubles} {fuel length : Nat} {args : List U32} {mem : Memory} {p fmt : List U8}
  {split split' before after : List Token}

theorem tokens_length (split : List Token) : split.length ≤ (bytesOf split).length := by
  induction split with
  | nil => exact le_rfl
  | cons t rest ih =>
    have begun := List.length_pos_iff.mpr t.bytes_ne_nil
    rw [bytesOf_cons, List.length_append, List.length_cons]
    omega

theorem format_nil (enough : 0 < fuel) :
    format dbl fuel length ⟨p, []⟩ args mem = .ok ([], ⟨[], args, mem⟩) := by
  obtain ⟨fuel, rfl⟩ := Nat.exists_eq_succ_of_ne_zero enough.ne'
  rw [format, Fmt.deref_nil, if_pos rfl]

/-- Without a `*` as a precision the output is the one of the split. -/
theorem vsprintf_rendered (splits : Splits fmt split) (noNul : ∀ c ∈ fmt, c ≠ 0)
    (noStar : ∀ t ∈ split, ¬ t.StarPrecision) (enough : fmt.length < fuel) :
    vsprintf dbl fuel fmt args mem = (render dbl split 0 args mem).map fun out =>
      ⟨split.map Token.bytes, out.text, out.args, out.mem, returned out.text⟩ := by
  have short := tokens_length split
  rw [splits.bytes] at short
  obtain ⟨more, rfl⟩ := Nat.exists_eq_add_of_le' (show split.length ≤ fuel by omega)
  have run := @format_before dbl more 0 args mem [] split [] (by rw [List.append_nil]; exact splits.reads)
    (by rw [splits.bytes]; exact noNul) noStar
  rw [List.append_nil, splits.bytes] at run
  unfold vsprintf
  rw [run]
  cases render dbl split 0 args mem with
  | error fault => rfl
  | ok out =>
    rw [ok_bind]
    dsimp only
    rw [show bytesOf [] = [] from rfl, format_nil (by omega), ok_bind]
    simp [Except.map, Bind.bind, Except.bind, pure, Except.pure]

theorem bytesOf_append (before after : List Token) :
    bytesOf (before ++ after) = bytesOf before ++ bytesOf after :=
  List.flatMap_append

theorem Reads.append (reads : Reads before) (complete : Complete before) (others : Reads after) :
    Reads (before ++ after) := by
  induction before with
  | nil => exact others
  | cons t before ih =>
    refine ⟨?_, ih reads.2 fun d member => complete d (List.mem_cons_of_mem _ member)⟩
    cases t with
    | literal c => exact reads.1
    | directive d => exact ⟨reads.1.1, fun missing => absurd missing (complete d List.mem_cons_self)⟩

theorem render_append (before after : List Token) :
    render dbl (before ++ after) length args mem = (do
      let out ← render dbl before length args mem
      let others ← render dbl after (length + out.text.length) out.args out.mem
      pure ⟨out.text ++ others.text, others.args, others.mem⟩) := by
  induction before generalizing length args mem with
  | nil =>
    rw [render, ok_bind, List.nil_append]
    cases render dbl after length args mem <;> rfl
  | cons t before ih =>
    rw [List.cons_append, render, render]
    cases t.render dbl length args mem with
    | error fault => rfl
    | ok out =>
      rw [ok_bind, ok_bind, ih]
      cases render dbl before (length + out.text.length) out.args out.mem with
      | error fault => rfl
      | ok out' =>
        rw [ok_bind, ok_bind, pure_bind]
        dsimp only
        rw [List.length_append, Nat.add_assoc]
        cases render dbl after (length + (out.text.length + out'.text.length)) out'.args out'.mem with
        | error fault => rfl
        | ok others =>
          rw [ok_bind, pure_bind, ok_bind, List.append_assoc]

/-- Only a `%n` reads how much stands in `buf`. -/
theorem convert_length {flags fieldWidth precision : U32} {conv : U8} (noCount : conv ≠ ascii 'n') :
    convert dbl length flags fieldWidth precision conv args mem =
      convert dbl 0 flags fieldWidth precision conv args mem := by
  unfold convert
  rw [if_neg noCount, if_neg noCount]

theorem render_length (noCount : ∀ t ∈ split, ¬ t.Counts) :
    render dbl split length args mem = render dbl split 0 args mem := by
  have tokenwise (t : Token) (no : ¬ t.Counts) (length : Nat) (args : List U32) (mem : Memory) :
      t.render dbl length args mem = t.render dbl 0 args mem := by
    cases t with
    | literal c => rfl
    | directive d =>
      have other : d.conv.getD 0 ≠ ascii 'n' := by
        cases conv : d.conv with
        | none => exact by decide
        | some c => exact fun same => no (conv.trans (congrArg some same))
      simp only [Token.render, Directive.render, convert_length other]
  have whole (start length : Nat) : render dbl split start args mem = render dbl split length args mem := by
    induction split generalizing start length args mem with
    | nil => rfl
    | cons t rest ih =>
      have first := noCount t List.mem_cons_self
      rw [render, render, tokenwise t first start, tokenwise t first length]
      cases t.render dbl 0 args mem with
      | error fault => rfl
      | ok out =>
        rw [ok_bind, ok_bind, ih (fun t member => noCount t (List.mem_cons_of_mem _ member))
          (start + out.text.length) (length + out.text.length)]
  exact whole length 0

theorem Splits.append {other : List U8} (splits : Splits fmt split) (complete : Complete split)
    (others : Splits other split') : Splits (fmt ++ other) (split ++ split') :=
  ⟨by rw [bytesOf_append, splits.bytes, others.bytes], splits.reads.append complete others.reads⟩

theorem slots_append (before after : List Token) : slots (before ++ after) = slots before + slots after := by
  simp [slots]

/-- A processor on which every double is 0. -/
def plainDoubles : Doubles := ⟨fun _ => false, id, fun _ => 0, fun _ _ => 0⟩

theorem first_star (starry : ¬ ∀ t ∈ split, ¬ t.StarPrecision) :
    ∃ before d after, split = before ++ Token.directive d :: after ∧ d.precision = some .star ∧
      ∀ t ∈ before, ¬ t.StarPrecision := by
  induction split with
  | nil => exact absurd (by simp) starry
  | cons t rest ih =>
    by_cases star : t.StarPrecision
    · cases t with
      | literal c => exact star.elim
      | directive d => exact ⟨[], d, rest, rfl, star, by simp⟩
    · obtain ⟨before, d, after, rfl, starred, plain⟩ := ih fun others => starry fun u member => by
        rcases List.mem_cons.mp member with rfl | member
        · exact star
        · exact others u member
      refine ⟨t :: before, d, after, rfl, starred, fun u member => ?_⟩
      rcases List.mem_cons.mp member with rfl | member
      · exact star
      · exact plain u member

theorem reads_after (reads : Reads (before ++ after)) : Reads after := by
  induction before with
  | nil => exact reads
  | cons t before ih => exact ih reads.2

/-- The turn over a directive with a `*` as its precision takes fewer bytes than the directive has, or it
    stands at the end of the format and puts out a `*` that the directive does not render. -/
theorem star_turn {d : Directive} {pieces : List (List U8)} {out : Output}
    (reads : Reads (.directive d :: after)) (star : d.precision = some .star) (enough : d.slots ≤ args.length)
    (run : format dbl fuel length ⟨p, bytesOf (.directive d :: after)⟩ args mem = .ok (pieces, out)) :
    pieces.head? ≠ some (Token.directive d).bytes ∨
      (after = [] ∧ out.text = [ascii '%', ascii '*'] ∧
        ∃ others, d.render dbl length args mem = .ok ⟨[ascii '%'], others, mem⟩) := by
  have last : d.conv = none → bytesOf after = [] := fun missing => by rw [reads.1.2 missing]; rfl
  have counts : d.slots = d.width.slots + (1 + convSlots (d.conv.getD 0)) := by
    rw [Directive.slots, star]
    rfl
  obtain ⟨flags, fieldWidth, width⟩ := @Count.fieldWidth_ok args (d.flags.foldl addFlag 0) d.width (by omega)
  obtain ⟨arg, args', word⟩ := List.exists_cons_of_length_pos
    (show 0 < (args.drop d.width.slots).length by rw [List.length_drop]; omega)
  rw [word] at width
  obtain ⟨passed, turned⟩ := @turn_star p (bytesOf after) flags args d dbl length mem args' fieldWidth arg
    reads.1.1 last star width
  cases fuel with
  | zero => cases run
  | succ fuel =>
    have begun : ¬ Fmt.deref ⟨p, bytesOf (.directive d :: after)⟩ = 0 := by
      rw [bytesOf_cons, Token.bytes, List.cons_append, Fmt.deref_cons]
      decide
    rw [format, if_neg begun, bytesOf_cons, turned, ok_bind] at run
    dsimp only at run
    cases rest : format dbl fuel (length + 2) ⟨passed, d.afterPrecision ++ bytesOf after⟩ args' mem with
    | error fault =>
      rw [show [ascii '%', ascii '*'].length = 2 from rfl, rest] at run
      cases run
    | ok result =>
      rw [show [ascii '%', ascii '*'].length = 2 from rfl, rest, ok_bind] at run
      cases run
      by_cases ended : d.afterPrecision = []
      · have missing : d.conv = none := Option.toList_eq_nil_iff.mp (List.append_eq_nil_iff.mp ended).2
        have behind : after = [] := reads.1.2 missing
        rw [ended, behind] at rest
        refine .inr ⟨behind, ?_, args', ?_⟩
        · cases fuel with
          | zero => cases rest
          | succ fuel => cases rest; rfl
        · unfold Directive.render
          rw [width, ok_bind, star, missing]
          rfl
      · left
        intro same
        have lengths := congrArg List.length (Option.some.inj same)
        have longer := List.length_pos_iff.mpr ended
        simp only [List.length_take, List.length_append] at lengths
        have within : d.afterPrecision.length ≤ (Token.directive d).bytes.length := by
          simp only [Token.bytes, Directive.tail, Directive.afterFlags, Directive.afterWidth, List.length_cons,
            List.length_append]
          omega
        omega

/-- A `*` as the precision is put out and not read: a format with one has another split or another output. -/
theorem noStar_of_formats (fmt : CString) (formats : Formats fmt.bytes) :
    ∀ t ∈ tokens fmt.bytes, ¬ t.StarPrecision := by
  have split := tokens_splits fmt.bytes
  by_contra starry
  obtain ⟨before, d, after, same, star, plain⟩ := first_star starry
  -- the arguments and the memory are 0, so every directive renders
  obtain ⟨args, zeros⟩ : ∃ args, args = List.replicate (slots (tokens fmt.bytes)) (0 : U32) := ⟨_, rfl⟩
  have apart : Apart 4 args := by
    intro ip member
    rw [zeros] at member
    rw [List.eq_of_mem_replicate member]
    decide
  have enough : slots (tokens fmt.bytes) ≤ args.length := by rw [zeros, List.length_replicate]
  have run := formats.rendered _ split plainDoubles (fmt.bytes.length + 1) args (fun _ => 0)
    (Nat.lt_succ_self _)
  obtain ⟨out, done, -, -⟩ := @render_completes plainDoubles 0 args (fun _ => 0) (tokens fmt.bytes) 4 enough rfl
    apart
  rw [done] at run
  rw [same, slots_append, slots_cons] at enough
  obtain ⟨out₁, done₁, behind, -⟩ := @render_completes plainDoubles 0 args (fun _ => 0) before 4 (by omega) rfl
    apart
  have short := tokens_length (tokens fmt.bytes)
  rw [split.bytes, same, List.length_append] at short
  obtain ⟨more, fuel⟩ := Nat.exists_eq_add_of_le' (show before.length ≤ fmt.bytes.length + 1 by omega)
  have start := @format_before plainDoubles more 0 args (fun _ => 0) [] before (.directive d :: after)
    (by rw [← same]; exact split.reads)
    (fun c member => fmt.noNul c (by
      rw [← split.bytes, same, bytesOf_append]
      exact List.mem_append_left _ member))
    plain
  rw [← same, split.bytes, ← fuel, done₁, ok_bind] at start
  unfold vsprintf at run
  rw [start] at run
  cases rest : format plainDoubles more (0 + out₁.text.length)
      ⟨(bytesOf before).reverse ++ [], bytesOf (.directive d :: after)⟩ out₁.args out₁.mem with
  | error fault =>
    rw [rest] at run
    cases run
  | ok result =>
    obtain ⟨pieces, others⟩ := result
    rw [rest] at run
    have reads := split.reads
    rw [same] at reads
    have result := Except.ok.inj run
    have taken : before.map Token.bytes ++ pieces = (tokens fmt.bytes).map Token.bytes :=
      congrArg Result.pieces result
    have text : out₁.text ++ others.text = out.text := congrArg Result.text result
    rw [same, List.map_append, List.append_cancel_left_eq] at taken
    have room : d.slots ≤ out₁.args.length := by
      rw [behind, List.length_drop]
      simp only [Token.slots] at enough
      omega
    rcases star_turn (reads_after reads) star room rest with shorter | ⟨ended, starred, _, rendered⟩
    · exact shorter (by rw [taken]; rfl)
    · rw [same, ended, render_append, done₁, ok_bind, render, Token.render, rendered] at done
      cases done
      have lengths := congrArg List.length text
      rw [starred] at lengths
      simp at lengths

theorem formats_of_noStar (fmt : CString) (noStar : ∀ t ∈ tokens fmt.bytes, ¬ t.StarPrecision) :
    Formats fmt.bytes := by
  have split := tokens_splits fmt.bytes
  refine ⟨⟨tokens fmt.bytes, split, fun _ other => other.eq_tokens⟩, ?_, ?_, ?_⟩
  · intro split' splits dbl fuel args mem enough
    rw [splits.eq_tokens]
    exact vsprintf_rendered split fmt.noNul noStar enough
  · intro split' splits dbl fuel args mem enough supplied
    rw [splits.eq_tokens] at supplied ⊢
    rw [vsprintf_rendered split fmt.noNul noStar enough]
    rcases @render_supplied dbl 0 args mem (tokens fmt.bytes) supplied with
      ⟨out, done, behind⟩ | ⟨failed, string⟩
    · rw [done]
      exact .inl ⟨_, rfl, behind⟩
    · rw [failed]
      exact .inr ⟨rfl, string⟩
  · intro split₁ splits₁ complete other split₂ splits₂ plain dbl fuel args mem r₁ r₂ enough done₁ done₂
    rw [List.length_append] at enough
    have noStar₁ : ∀ t ∈ split₁, ¬ t.StarPrecision := by rw [splits₁.eq_tokens]; exact noStar
    have noStar₂ : ∀ t ∈ split₂, ¬ t.StarPrecision := fun t member => (plain t member).1
    have noNul : ∀ c ∈ fmt.bytes ++ other.bytes, c ≠ 0 := fun c member =>
      (List.mem_append.mp member).elim (fmt.noNul c) (other.noNul c)
    have noStarBoth : ∀ t ∈ split₁ ++ split₂, ¬ t.StarPrecision := fun t member =>
      (List.mem_append.mp member).elim (noStar₁ t) (noStar₂ t)
    rw [vsprintf_rendered splits₁ fmt.noNul noStar₁ (by omega)] at done₁
    rw [vsprintf_rendered splits₂ other.noNul noStar₂ (by omega)] at done₂
    rw [vsprintf_rendered (splits₁.append complete splits₂) noNul noStarBoth
      (by rw [List.length_append]; omega),
      render_append]
    cases first : render dbl split₁ 0 args mem with
    | error fault => rw [first] at done₁; cases done₁
    | ok out₁ =>
      rw [first] at done₁
      cases done₁
      cases second : render dbl split₂ 0 out₁.args out₁.mem with
      | error fault => rw [second] at done₂; cases done₂
      | ok out₂ =>
        rw [second] at done₂
        cases done₂
        rw [ok_bind, render_length fun t member => (plain t member).2, second, ok_bind]
        simp [Except.map, pure, Except.pure]

theorem format_parsing (fmt : CString) : Formats fmt.bytes ↔ ∀ t ∈ tokens fmt.bytes, ¬ t.StarPrecision :=
  ⟨noStar_of_formats fmt, formats_of_noStar fmt⟩

theorem star_precision_kept : ¬ Formats ("%.*d".toList.map ascii) := by
  intro formats
  have run := formats.rendered _ (tokens_splits _) plainDoubles 5 [3, 7] (fun _ => 0) (by decide)
  have done : vsprintf plainDoubles 5 ("%.*d".toList.map ascii) [3, 7] (fun _ => 0) =
      .ok ⟨["%.*".toList.map ascii, [ascii 'd']], "%*d".toList.map ascii, [7], fun _ => 0, some 3⟩ := rfl
  rw [done] at run
  cases rendered : render plainDoubles (tokens ("%.*d".toList.map ascii)) 0 [3, 7] fun _ => 0 with
  | error fault =>
    rw [rendered] at run
    cases run
  | ok out =>
    rw [rendered] at run
    have pieces : ["%.*".toList.map ascii, [ascii 'd']] =
        (tokens ("%.*d".toList.map ascii)).map Token.bytes := congrArg Result.pieces (Except.ok.inj run)
    exact absurd pieces (by decide)

end Output

end LiziOS.Vsprintf
