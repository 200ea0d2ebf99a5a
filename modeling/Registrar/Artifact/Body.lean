import Registrar.Artifact.Source

/-!
# Generated bodies

The header that gives a class or structure its generated body: one macro whose lines are continued
by backslashes.
-/

namespace Registrar.Artifact

/-- The lines of the body. -/
def bodyLines (e : Entity) : List Text :=
  let members : List Text :=
    if e.kind = .struct_ then
      ["    static UStruct* StaticStruct()",
       "    \x7b",
       "        static UStruct Struct\x7b \"" ++ e.name ++ "\", sizeof(" ++ e.name ++ ") \x7d;",
       "        static bool bRegistered = []() \x7b",
       "            UStruct::SignUpStruct(&Struct);",
       "            return true;",
       "        \x7d();",
       "        return &Struct;",
       "    \x7d"]
    else
      ["    DECLARE_CLASS(" ++ e.name ++ ", " ++ e.parent ++ ")",
       "    DECLARE_DUPLICATE(" ++ e.name ++ ")"]
  ["public:".toList] ++ members ++ ["    static void StaticRegisterProperties();".toList]

/-- The header that defines the body. -/
def body (e : Entity) : Text :=
  let opening : List Text :=
    ["// Generated by mundi-reflect from " ++ e.name ++ ". Do not edit.",
     "#pragma once",
     "",
     "#ifdef CURRENT_CLASS_GENERATED_BODY",
     "#undef CURRENT_CLASS_GENERATED_BODY",
     "#endif",
     ""]
  lines opening ++ "#define CURRENT_CLASS_GENERATED_BODY \\\n" ++
    Text.joinWith " \\\n" (bodyLines e) ++ "\n"

end Registrar.Artifact
