import TemplateSuite.Macro.Reference
import TemplateSuite.Macro.Environment

/-!
Expansion of macros. A call binds the arguments to the parameters and replaces the references of
the body: a parameter by its argument, a macro without parameters by its body as it stands, and a
macro with parameters by the expansion of its own call. Calls may be nested up to a fixed depth,
and no macro may be active twice.
-/

namespace TemplateSuite

/-- Why a call cannot be expanded. -/
inductive ExpansionError where
  /-- The call gives another number of arguments than the macro has parameters. -/
  | arityMismatch (name : Text) (expected got : Nat)
  /-- The name is neither a parameter nor a macro. -/
  | undefinedMacro (name : Text)
  /-- The last macro of the chain of active calls is active already. -/
  | cycle (chain : List Text)
  /-- The call of this macro would exceed the limit on active calls. -/
  | tooDeep (name : Text) (limit : Nat)
  deriving DecidableEq, Repr, Inhabited

namespace ExpansionError

def message : ExpansionError → Text
  | .arityMismatch name expected got =>
    "[" ++ name ++ "] argument count does not match (expected=" ++ Text.decimal expected ++
      ", got=" ++ Text.decimal got ++ ")"
  | .undefinedMacro name => "'" ++ name ++ "' is not a defined macro"
  | .cycle chain =>
    "Recursive macro expansion: " ++ List.intercalate (" -> " : Text) chain
  | .tooDeep name limit =>
    "Expansion of '" ++ name ++ "' exceeds the nesting limit of " ++ Text.decimal limit

end ExpansionError

/-- The number of calls that may be active at once. -/
def maxActiveCalls : Nat := 64

/-- The reference that stays in the output when nothing of its name is defined. -/
def keptReference : Text := "$Id"

/-- The token ends like a name and the text goes on with an identifier character, so that the token
is here only the beginning of a longer name. -/
def isWithinName (token after : Text) : Bool :=
  token.getLast?.any isIdentifierChar && after.head?.any isIdentifierChar

/-- The text with every occurrence of `token` replaced, except where it begins a longer name. -/
def replaceToken (token replacement text : Text) : Text :=
  match text with
  | [] => []
  | c :: rest =>
    if token.isPrefixOf (c :: rest) && !isWithinName token (rest.drop (token.length - 1)) then
      replacement ++ replaceToken token replacement (rest.drop (token.length - 1))
    else c :: replaceToken token replacement rest
termination_by text.length
decreasing_by
  · simp only [List.length_drop, List.length_cons]
    omega
  · simp

namespace Macro

/-- The argument bound to a parameter; of two parameters of one name the later one counts. -/
def binding? (m : Macro) (args : List Text) (name : Text) : Option Text :=
  (m.params.zip args).reverse.lookup name

/-- What a reference in the body stands for, `none` if it is kept as it is. Calls of macros with
parameters are left to `call`. -/
def resolve (env : Environment) (call : Macro → List Text → Except ExpansionError Text)
    (m : Macro) (args : List Text) (r : Reference) : Except ExpansionError (Option Text) :=
  match m.binding? args r.name with
  | some value => .ok (some value)
  | none =>
    match env.get? r.name with
    | some callee =>
      if callee.params = [] then .ok (some callee.body)
      else (call callee r.arguments).map some
    | none => if r.name = keptReference then .ok none else .error (.undefinedMacro r.name)

/-- Replace the tokens of the references one after the other, each in the whole text. -/
def substitute (body : Text) (expansions : List (Reference × Option Text)) : Text :=
  expansions.foldl
    (fun text (r, expansion) =>
      match expansion with
      | some value => replaceToken r.token value text
      | none => text)
    body

/-- Expand the body for the given arguments. References of the same text are resolved once. -/
def expandWith (env : Environment) (call : Macro → List Text → Except ExpansionError Text)
    (m : Macro) (args : List Text) : Except ExpansionError Text :=
  if m.params.length = args.length then do
    let references := (Reference.all m.body).eraseDups
    let expansions ← references.mapM (m.resolve env call args)
    -- a body without any reference has the empty expansion
    return if references = [] then [] else substitute m.body (references.zip expansions)
  else .error (.arityMismatch m.name m.params.length args.length)

end Macro

namespace Environment

/-- Expand a macro that has just become active, while the macros in `active` are (outermost first,
the macro itself last) and `levels` more calls may become active. -/
def expand (env : Environment) :
    (levels : Nat) → (active : List Text) → Macro → List Text → Except ExpansionError Text
  | 0, active, m, args =>
    m.expandWith env (fun callee _ =>
      if active.contains callee.name then .error (.cycle (active ++ [callee.name]))
      else .error (.tooDeep callee.name maxActiveCalls)) args
  | levels + 1, active, m, args =>
    m.expandWith env (fun callee calleeArgs =>
      if active.contains callee.name then .error (.cycle (active ++ [callee.name]))
      else expand env levels (active ++ [callee.name]) callee calleeArgs) args

end Environment

/-- The expansion of a macro for the given arguments in an environment. -/
def Macro.evaluate (m : Macro) (args : List Text) (env : Environment) :
    Except ExpansionError Text :=
  env.expand (maxActiveCalls - 1) [m.name] m args

end TemplateSuite
