/-! The naming checks and the messages that go with them. -/

namespace NamingLint.Convention

inductive Tip where
  | className
  | moduleName
  | interfaceName
  | enumName
  | varStatement
  | constant
  | globalVariable
  | rootVariable
  | namespaceVariable
  | staticMethod
  | method
  | staticProperty
  | staticReadonlyProperty
  | memberProperty
  | privateProperty
  deriving DecidableEq, Repr

namespace Tip

def all : List Tip :=
  [className, moduleName, interfaceName, enumName, varStatement, constant, globalVariable,
    rootVariable, namespaceVariable, staticMethod, method, staticProperty, staticReadonlyProperty,
    memberProperty, privateProperty]

def key : Tip → String
  | className => "cls"
  | moduleName => "module"
  | interfaceName => "interface"
  | enumName => "enum"
  | varStatement => "var"
  | constant => "const"
  | globalVariable => "let"
  | rootVariable => "let_g"
  | namespaceVariable => "let_p"
  | staticMethod => "method_s"
  | method => "method"
  | staticProperty => "property_s"
  | staticReadonlyProperty => "property_s_rd"
  | memberProperty => "property_m"
  | privateProperty => "property_p"

end Tip

abbrev Tips := Tip → String

namespace Tips

/-- The messages given in listing order. Checks behind the end of the list have an empty one. -/
def ofList (messages : List String) : Tips := fun tip =>
  ((Tip.all.zip messages).lookup tip).getD ""

def egret : Tips
  | .className => "Class names must be PascalCase, e.g. TextField"
  | .moduleName => "Module names must be lower snake_case, e.g. name_space"
  | .interfaceName => "Interface names must be PascalCase with an I prefix, e.g. IWatch"
  | .enumName => "Enum names must be PascalCase with an E prefix, e.g. EGameType"
  | .varStatement => "`var` is banned: declare variables with `let` and constants with `const`"
  | .constant => "Constant names must be UPPER_SNAKE_CASE with a C_ prefix, e.g. C_GAME_NAME"
  | .globalVariable =>
    "Global variable names must be lower snake_case with a g_ or p_ prefix, e.g. g_scene_hall, p_res"
  | .rootVariable =>
    "Root-level variable names must be lower snake_case with a g_ prefix, e.g. g_scene_hall"
  | .namespaceVariable =>
    "Module-level variable names must be lower snake_case with a p_ prefix, e.g. p_hall"
  | .staticMethod => "Static method names must be PascalCase, e.g. CreateIns()"
  | .method => "Method names must be camelCase, e.g. toString()"
  | .staticProperty =>
    "Static property names must be lower snake_case with an s_ prefix, e.g. s_instance"
  | .staticReadonlyProperty =>
    "Static readonly property names must be UPPER_SNAKE_CASE, e.g. FAIL_CODE"
  | .memberProperty => "Public property names must be lower snake_case with an m_ prefix, e.g. m_id"
  | .privateProperty => "Private property names must be lower snake_case with a _ prefix, e.g. _name"

end Tips

end NamingLint.Convention
