/-!
# Conveyor.Template

Definitions to start from.

* `Template`        — the templates that there are.
* `Template.find`   — the template of a name, or the message that there is none.
* `Template.render` — the YAML text of a template for a pipeline of that name.
-/

namespace Conveyor

inductive Template where
  /-- Checks a change: checkout, lint, test. -/
  | basic
  /-- Publishes a version, gated by event and branch. -/
  | release
  deriving DecidableEq, Repr, Inhabited

namespace Template

def unknown (name : String) : String :=
  "Unknown template: '" ++ name ++ "'\n\nAvailable templates:\n" ++
    "• basic    - Checkout, lint and test\n" ++
    "• release  - Version bump, build and publish with gating"

def find (name : Option String) : Except String Template :=
  match name with
  | none | some "basic" => .ok .basic
  | some "release" => .ok .release
  | some name => .error (unknown name)

def title : Template → String
  | .basic => "# pipeflow pipeline definition"
  | .release => "# pipeflow pipeline - release"

def body : Template → List String
  | .basic =>
    ["",
      "settings:",
      "  timeout_secs: 1800",
      "",
      "stages:",
      "  - name: checkout",
      "    run: git fetch --tags",
      "",
      "  - name: lint",
      "    run: cargo clippy -- -D warnings",
      "    depends_on: [checkout]",
      "",
      "  - name: test",
      "    run: cargo test",
      "    depends_on: [checkout]",
      "    fail_fast_group: checks",
      "",
      "# Add more stages as needed:",
      "# - name: docs",
      "#   run: cargo doc --no-deps",
      "#   depends_on: [test]",
      "#   when:",
      "#     branches: [main]"]
  | .release =>
    ["",
      "settings:",
      "  timeout_secs: 3600",
      "  cancel_grace_secs: 10",
      "",
      "stages:",
      "  - name: checkout",
      "    run: git fetch --tags",
      "",
      "  - name: lint",
      "    run: cargo clippy -- -D warnings",
      "    depends_on: [checkout]",
      "",
      "  - name: typecheck",
      "    run: cargo check --all-targets",
      "    depends_on: [checkout]",
      "",
      "  - name: audit",
      "    run: cargo audit",
      "    depends_on: [checkout]",
      "    allow_failure: true",
      "",
      "  - name: bump-version",
      "    run: |",
      "      version=$(git describe --tags --abbrev=0 | sed 's/^v//')",
      "      echo \"::set-output name=version::$version\"",
      "    depends_on: [lint, typecheck]",
      "    outputs: [version]",
      "",
      "  - name: build",
      "    run: cargo build --release",
      "    inputs:",
      "      VERSION: bump-version.version",
      "",
      "  - name: publish",
      "    run: cargo publish",
      "    depends_on: [build]",
      "    inputs:",
      "      VERSION: bump-version.version",
      "    secrets: [CARGO_REGISTRY_TOKEN]",
      "    concurrency_group: release-lock",
      "    when:",
      "      events: [push, manual]",
      "      branches: [main, \"release/**\"]",
      "",
      "  - name: notify",
      "    run: echo \"release finished\"",
      "    depends_on: [publish]",
      "    on_failure: continue",
      "    when:",
      "      if: failure() || success()"]

/-- The text of a template. The name is put between double quotes as it is. -/
def render (t : Template) (name : String) : String :=
  String.join ((t.title :: "version: \"1\"" :: ("name: \"" ++ name ++ "\"") :: t.body).map
    (· ++ "\n"))

end Template
end Conveyor
