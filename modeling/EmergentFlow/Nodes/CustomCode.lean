import EmergentFlow.Nodes.Contract

/-!
# Nodes — CustomCode

The definition of `script.custom_code` (`nodes/examples/custom_code.py`), the
one node type whose `validate_node` does more than the inherited one: it parses
the code of the node. What the parser says of a text is given.
-/

namespace EmergentFlow

/-- What `ast.parse` makes of a text: a module, with or without a top-level
`transform` of one argument, or an exception, a `SyntaxError` or another one. -/
inductive ParsedCode where
  | parsed (has_transform : Bool)
  | syntax_error (message : String)
  | raised (exception : String)
  deriving DecidableEq, Repr

/-- What `CustomCode.validate_node` adds to the inherited findings. A value that
is no string goes to the parser all the same. -/
def CustomCode.own_checks (parse : String → ParsedCode) (values : Dict String ParamValue) :
    List ContractError :=
  let code := (values.get? "code").getD .none
  if !code.truthy then []
  else
    match code with
    | .str text =>
        match parse text with
        | .parsed true => []
        | .parsed false => [.hint ("param 'code' must define a top-level function " ++
            "'transform(value)' taking exactly one argument.")]
        | .syntax_error message => [.hint ("param 'code' failed to parse: " ++ message)]
        | .raised exception => [.raised exception]
    | _ => [.raised "TypeError"]

/-- `CustomCode`. -/
def CustomCode (parse : String → ParsedCode) : NodeDefinition where
  type := "script.custom_code"
  ports := [{ name := "value", direction := .IN }, { name := "result", direction := .OUT }]
  params := [{ name := "code", type_token := "str" }]
  own_checks := CustomCode.own_checks parse

end EmergentFlow
