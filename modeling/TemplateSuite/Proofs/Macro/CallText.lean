import TemplateSuite.Proofs.Macro.WrittenCall

namespace TemplateSuite

namespace Argument

def quote (arg : Text) : Text :=
  '"' :: (arg ++ ['"'])

/-- The argument comes back from between double quotes. -/
structure IsPlain (arg : Text) : Prop where
  trimmed : Text.trim arg = arg
  no_quote : '"' ∉ arg
  no_parenthesis : ')' ∉ arg
  no_newline : '\n' ∉ arg

variable {arg rest piece : Text} {pieces : List Text}

theorem not_mem_quote {c : Char} (hquote : c ≠ '"') (h : c ∉ arg) : c ∉ quote arg := by
  simp [quote, hquote, h]

theorem cut_quoted (h : '"' ∉ arg) (hrest : cut .start rest = piece :: pieces) :
    cut ⟨true, 0⟩ (arg ++ '"' :: rest) = (arg ++ '"' :: piece) :: pieces := by
  induction arg with
  | nil =>
      have hclose : Position.next ⟨true, 0⟩ '"' = .start := by decide
      rw [List.nil_append, cut, if_neg (by decide), hclose, hrest]
      rfl
  | cons c arg ih =>
      have hc : c ≠ '"' := fun heq => h (heq ▸ List.mem_cons_self)
      have harg : '"' ∉ arg := fun hmem => h (List.mem_cons_of_mem c hmem)
      have hnext : Position.next ⟨true, 0⟩ c = ⟨true, 0⟩ := by simp [Position.next, hc]
      rw [List.cons_append, cut, if_neg (by simp [Position.separates]), hnext, ih harg]
      rfl

theorem cut_quote_append (h : '"' ∉ arg) (hrest : cut .start rest = piece :: pieces) :
    cut .start (quote arg ++ rest) = (quote arg ++ piece) :: pieces := by
  have hopen : Position.next .start '"' = ⟨true, 0⟩ := by decide
  rw [quote, List.cons_append, List.append_assoc, List.singleton_append, cut, if_neg (by decide),
    hopen, cut_quoted h hrest]
  simp [addToFirst]

theorem cut_commaSeparated {first : Text} {args : List Text} (h : ∀ arg ∈ first :: args, '"' ∉ arg) :
    cut .start (Text.commaSeparated ((first :: args).map quote)) =
      quote first :: args.map fun arg => ' ' :: quote arg := by
  induction args generalizing first with
  | nil =>
      have hcut : cut .start (quote first ++ []) = [quote first ++ []] :=
        cut_quote_append (h first List.mem_cons_self) rfl
      simpa [Text.commaSeparated] using hcut
  | cons next others ih =>
      have hnext := ih fun arg hmem => h arg (List.mem_cons_of_mem first hmem)
      have hspace : Position.next .start ' ' = .start := by decide
      have hrest : cut .start (',' :: ' ' :: Text.commaSeparated ((next :: others).map quote)) =
          [] :: (' ' :: quote next) :: others.map fun arg => ' ' :: quote arg := by
        rw [cut, if_pos (by decide), cut, if_neg (by decide), hspace, hnext]
        rfl
      rw [List.map_cons, List.map_cons, Text.commaSeparated_cons_cons, ← List.map_cons,
        cut_quote_append (h first List.mem_cons_self) hrest, List.append_nil]
      rfl

theorem trim_quote (arg : Text) : Text.trim (quote arg) = quote arg := by
  apply Text.trim_of_ends
  · rintro c ⟨⟩
    rfl
  · intro c hc
    rw [quote, ← List.cons_append, List.getLast?_concat] at hc
    cases hc
    rfl

theorem unwrap_of_trim_eq_quote (h : IsPlain arg) (hpiece : Text.trim piece = quote arg) :
    unwrap piece = arg := by
  have hbetween : isBetween '"' '"' (quote arg) = true := by
    rw [isBetween, quote, ← List.cons_append, List.getLast?_concat]
    simp
  have hinner : (quote arg).tail.dropLast = arg := by simp [quote]
  rw [unwrap, hpiece, hbetween, Bool.true_or, if_pos rfl, hinner, h.trimmed]

end Argument

theorem splitArguments_commaSeparated {args : List Text} (h : ∀ arg ∈ args, Argument.IsPlain arg) :
    splitArguments (Text.commaSeparated (args.map Argument.quote)) = args := by
  cases args with
  | nil => rfl
  | cons first rest =>
      have hblank : Text.allBlank (Text.commaSeparated ((first :: rest).map Argument.quote)) =
          false := by
        cases rest <;> rfl
      have hfirst : Argument.unwrap (Argument.quote first) = first :=
        Argument.unwrap_of_trim_eq_quote (h first List.mem_cons_self) (Argument.trim_quote first)
      have hrest : ∀ arg ∈ rest, Argument.unwrap (' ' :: Argument.quote arg) = arg :=
        fun arg hmem => Argument.unwrap_of_trim_eq_quote (h arg (List.mem_cons_of_mem first hmem))
          (Argument.trim_quote arg)
      rw [splitArguments, hblank, if_neg Bool.false_ne_true,
        Argument.cut_commaSeparated fun arg hmem => (h arg hmem).no_quote, List.map_cons, hfirst,
        List.map_map]
      exact congrArg (first :: ·) ((List.map_congr_left hrest).trans (List.map_id rest))

namespace Call

def render (call : Call) : Text :=
  call.name ++ '(' :: (Text.commaSeparated (call.args.map Argument.quote) ++ [')'])

/-- The call comes back from its text. -/
structure IsPlain (call : Call) : Prop where
  isMacroName : IsMacroName call.name
  args : ∀ arg ∈ call.args, Argument.IsPlain arg

variable {call : Call} {c : Char}

theorem not_mem_render (h : call.IsPlain) (hmark : c ∉ ['$', '(', ')', ',', ' ', '"'])
    (hidentifier : isIdentifierChar c = false) (hargs : ∀ arg ∈ call.args, c ∉ arg) :
    c ∉ render call := by
  simp only [List.mem_cons, List.not_mem_nil, or_false, not_or] at hmark
  obtain ⟨hsigil, hopen, hclose, hcomma, hspace, hquote⟩ := hmark
  have hname : c ∉ call.name := h.isMacroName.not_mem hsigil hidentifier
  have hlist : c ∉ Text.commaSeparated (call.args.map Argument.quote) :=
    Text.not_mem_commaSeparated hcomma hspace
      (List.forall_mem_map.mpr fun arg harg => Argument.not_mem_quote hquote (hargs arg harg))
  simp [render, hname, hopen, hlist, hclose]

theorem parenthesis_not_mem_commaSeparated (h : call.IsPlain) :
    ')' ∉ Text.commaSeparated (call.args.map Argument.quote) :=
  Text.not_mem_commaSeparated (by decide) (by decide) (List.forall_mem_map.mpr fun arg harg =>
    Argument.not_mem_quote (by decide) (h.args arg harg).no_parenthesis)

def written (call : Call) : WrittenCall :=
  ⟨call.name, some ⟨[], Text.commaSeparated (call.args.map Argument.quote)⟩⟩

theorem hasForm_written (h : call.IsPlain) : call.written.HasForm := by
  refine ⟨h.isMacroName, ?_⟩
  rintro _ ⟨⟩
  exact ⟨nofun, parenthesis_not_mem_commaSeparated h⟩

theorem call_written (h : call.IsPlain) : call.written.call = call :=
  congrArg (Call.mk call.name) (splitArguments_commaSeparated h.args)

end Call

end TemplateSuite
