/-
Conformance — the suite of everyday lookups.

What a developer asks for: classes of frameworks and of the language, nested
and generated names, and a scan followed by a look at a class.
-/
import Conformance.Suite.Basic

namespace Conformance.Suite.BattlePrep

/-- A test that asks a tool about each class in turn. -/
def lookups (name tool : String) (classes : List String) : TestCase :=
  { name
    body := fun project =>
      handleAll tool (classes.map fun c => (tool ++ " " ++ c, classArguments c project)) }

def scanThenDecompile (project : String) : Check Unit := do
  let _ ← (callWithResult "scan_dependencies" (projectArgument project)).within "scan step"
  let _ ← (callHandled "decompile_class" (classArguments "com.test.FakeClass" project)).within
    "decompile step"

def repeatedScans (project : String) : Check Unit :=
  forEach [1, 2, 3] fun attempt => do
    let _ ← (callWithResult "scan_dependencies" (projectArgument project)).within
      ("scan #" ++ toString (attempt : Nat))

def suite : Suite :=
  { key := "battle-prep"
    title := "Battle Prep"
    tests := [
      lookups "spring_boot_common_classes" "analyze_class"
        ["org.springframework.data.jpa.repository.JpaRepository",
          "org.springframework.web.bind.annotation.RestController",
          "org.springframework.stereotype.Service",
          "org.springframework.context.annotation.Configuration"],
      lookups "java_standard_library" "analyze_class"
        ["java.util.List", "java.util.ArrayList", "java.util.Map", "java.lang.String",
          "java.io.File"],
      lookups "common_third_party_libs" "decompile_class"
        ["com.fasterxml.jackson.databind.ObjectMapper", "org.apache.commons.lang3.StringUtils",
          "com.google.common.collect.Lists", "lombok.Data"],
      lookups "inner_class_names" "decompile_class"
        ["com.example.OuterClass$InnerClass", "com.example.OuterClass$1",
          "com.example.Container$Inner$Nested"],
      lookups "array_type_names" "analyze_class"
        ["[Ljava.lang.String;", "[I", "[[Ljava.util.List;", "java.lang.String[]"],
      lookups "generic_type_signatures" "analyze_class"
        ["java.util.List<java.lang.String>", "java.util.Map<java.lang.String, java.lang.Integer>",
          "com.example.GenericClass<java.lang.String>"],
      { name := "scan_then_decompile_workflow", body := scanThenDecompile },
      { name := "multiple_scans_same_project", body := repeatedScans },
      lookups "primitive_type_names" "analyze_class"
        ["int", "boolean", "void", "byte", "short", "long", "float", "double", "char"],
      lookups "anonymous_class_patterns" "decompile_class"
        ["com.example.Class$1", "com.example.Class$2Local", "com.example.Class$1Enum"]] }

end Conformance.Suite.BattlePrep
