import StaticSite.Site.Build

/-!
# Starter sites

A new site starts with two pages, four components, a stylesheet, and a few notes. Pages and notes
name the site.
-/

namespace StaticSite.Starter

/-- Lines, each with a line feed at its end. -/
def unlines (lines : List String) : Text := lines.flatMap fun line => line.toList ++ ['\n']

/-- Lines in which each `@` stands for the name of the site. -/
def named (name : Text) (lines : List String) : Text :=
  (unlines lines).flatMap fun c => if c = '@' then name else [c]

def indexPage (name : Text) : Text :=
  named name [
    "<!DOCTYPE html>",
    "<html lang=\"en\">",
    "<head>",
    "  <meta charset=\"UTF-8\">",
    "  <meta name=\"viewport\" content=\"width=device-width, initial-scale=1.0\">",
    "  <title>Home | @</title>",
    "  <link rel=\"stylesheet\" href=\"/assets/styles/main.css\">",
    "</head>",
    "<body>",
    "  <Component src=\"Header\" title=\"@\" />",
    "",
    "  <main class=\"container\">",
    "    <h2>Welcome to @</h2>",
    "    <p>This is a sample page using HTML Component Engine.</p>",
    "",
    "    <section class=\"cards\">",
    "      <Component name=\"Card\" title=\"Getting Started\">",
    "        <p>Edit <code>src/index.html</code> to modify this page.</p>",
    "        <p>Components are in <code>src/components/</code>.</p>",
    "      </Component>",
    "",
    "      <Component name=\"Card\" title=\"Features\">",
    "        <ul>",
    "          <li>Reusable HTML components</li>",
    "          <li>Props and variants support</li>",
    "          <li>Slot-based children</li>",
    "          <li>CSS/JS inlining for production</li>",
    "        </ul>",
    "      </Component>",
    "    </section>",
    "",
    "    <Component src=\"Button\" text=\"Learn More\" variant=\"primary\" href=\"/about\" />",
    "  </main>",
    "",
    "  <Component src=\"Footer\" year=\"2025\" />",
    "</body>",
    "</html>"]

def aboutPage (name : Text) : Text :=
  named name [
    "<!DOCTYPE html>",
    "<html lang=\"en\">",
    "<head>",
    "  <meta charset=\"UTF-8\">",
    "  <meta name=\"viewport\" content=\"width=device-width, initial-scale=1.0\">",
    "  <title>About | @</title>",
    "  <link rel=\"stylesheet\" href=\"/assets/styles/main.css\">",
    "</head>",
    "<body>",
    "  <Component src=\"Header\" title=\"@\" />",
    "",
    "  <main class=\"container\">",
    "    <h2>About Us</h2>",
    "    <p>This is the about page.</p>",
    "",
    "    <Component name=\"Card\" title=\"Our Mission\">",
    "      <p>Building great websites with simple, reusable HTML components.</p>",
    "    </Component>",
    "",
    "    <Component src=\"Button\" text=\"Go Home\" variant=\"secondary\" href=\"/\" />",
    "  </main>",
    "",
    "  <Component src=\"Footer\" year=\"2025\" />",
    "</body>",
    "</html>"]

def headerComponent : Text :=
  unlines [
    "<header class=\"header\">",
    "  <div class=\"header-content\">",
    "    <h1 class=\"logo\">\x7b\x7b title \x7d\x7d</h1>",
    "    <nav class=\"nav\">",
    "      <a href=\"/\">Home</a>",
    "      <a href=\"/about\">About</a>",
    "    </nav>",
    "  </div>",
    "</header>"]

def footerComponent : Text :=
  unlines [
    "<footer class=\"footer\">",
    "  <div class=\"footer-content\">",
    "    <p>&copy; \x7b\x7b year \x7d\x7d All rights reserved.</p>",
    "  </div>",
    "</footer>"]

def cardComponent : Text :=
  unlines [
    "<div class=\"card\">",
    "  <div class=\"card-header\">",
    "    <h3>\x7b\x7b title \x7d\x7d</h3>",
    "  </div>",
    "  <div class=\"card-body\">",
    "    \x7b\x7b children \x7d\x7d",
    "  </div>",
    "</div>"]

def buttonComponent : Text :=
  unlines [
    "<!-- variants: primary=btn-primary, secondary=btn-secondary, outline=btn-outline -->",
    "<a class=\"btn \x7b\x7b variantClasses \x7d\x7d\" href=\"\x7b\x7b href \x7d\x7d\">\x7b\x7b text \x7d\x7d</a>"]

def mainStyles : Text :=
  unlines [
    "*, *::before, *::after \x7b",
    "  box-sizing: border-box;",
    "  margin: 0;",
    "  padding: 0;",
    "\x7d",
    "",
    ":root \x7b",
    "  --primary-color: #3b82f6;",
    "  --secondary-color: #64748b;",
    "  --text-color: #1e293b;",
    "  --bg-color: #f8fafc;",
    "  --card-bg: #ffffff;",
    "  --border-color: #e2e8f0;",
    "  --radius: 8px;",
    "\x7d",
    "",
    "body \x7b",
    "  font-family: system-ui, -apple-system, \"Segoe UI\", Roboto, sans-serif;",
    "  line-height: 1.6;",
    "  color: var(--text-color);",
    "  background-color: var(--bg-color);",
    "  min-height: 100vh;",
    "  display: flex;",
    "  flex-direction: column;",
    "\x7d",
    "",
    ".container \x7b max-width: 1200px; margin: 0 auto; padding: 2rem; flex: 1; \x7d",
    "",
    ".header \x7b background: var(--card-bg); border-bottom: 1px solid var(--border-color); padding: 1rem 2rem; \x7d",
    ".header-content \x7b max-width: 1200px; margin: 0 auto; display: flex; justify-content: space-between; align-items: center; \x7d",
    ".logo \x7b font-size: 1.5rem; color: var(--primary-color); \x7d",
    ".nav \x7b display: flex; gap: 1.5rem; \x7d",
    ".nav a \x7b color: var(--text-color); text-decoration: none; font-weight: 500; \x7d",
    "",
    ".footer \x7b background: var(--text-color); color: var(--bg-color); padding: 1.5rem 2rem; margin-top: auto; text-align: center; \x7d",
    "",
    ".cards \x7b display: grid; grid-template-columns: repeat(auto-fit, minmax(300px, 1fr)); gap: 1.5rem; margin: 2rem 0; \x7d",
    ".card \x7b background: var(--card-bg); border: 1px solid var(--border-color); border-radius: var(--radius); overflow: hidden; \x7d",
    ".card-header \x7b padding: 1rem 1.5rem; border-bottom: 1px solid var(--border-color); background: var(--bg-color); \x7d",
    ".card-body \x7b padding: 1.5rem; \x7d",
    "",
    ".btn \x7b display: inline-block; padding: 0.75rem 1.5rem; border-radius: var(--radius); text-decoration: none; font-weight: 500; border: 2px solid transparent; \x7d",
    ".btn-primary \x7b background: var(--primary-color); color: white; \x7d",
    ".btn-secondary \x7b background: var(--secondary-color); color: white; \x7d",
    ".btn-outline \x7b background: transparent; border-color: var(--primary-color); color: var(--primary-color); \x7d"]

def ignoredFiles : Text :=
  unlines [
    "dist/",
    "__pycache__/",
    "*.log",
    ".DS_Store"]

def readme (name : Text) : Text :=
  named name [
    "# @",
    "",
    "A website built with HTML Component Engine.",
    "",
    "## Commands",
    "",
    "```bash",
    "html-component-engine build          # compile src/ into dist/",
    "html-component-engine render index.html",
    "```",
    "",
    "## Component Syntax",
    "",
    "Self-closing components:",
    "",
    "```html",
    "<Component src=\"Button\" text=\"Click Me\" variant=\"primary\" />",
    "```",
    "",
    "Components with children:",
    "",
    "```html",
    "<Component name=\"Card\" title=\"My Card\">",
    "  <p>This content goes into \x7b\x7b children \x7d\x7d</p>",
    "</Component>",
    "```",
    "",
    "Variants:",
    "",
    "```html",
    "<!-- variants: primary=btn-primary, secondary=btn-secondary -->",
    "<button class=\"\x7b\x7b variantClasses \x7d\x7d\">\x7b\x7b text \x7d\x7d</button>",
    "```"]

/-- The files of a new site by path, with their texts for the site's name. -/
def files : List (Text × (Text → Text)) := [
  ("src/index.html", indexPage),
  ("src/about.html", aboutPage),
  ("src/components/Header.html", fun _ => headerComponent),
  ("src/components/Footer.html", fun _ => footerComponent),
  ("src/components/Card.html", fun _ => cardComponent),
  ("src/components/Button.html", fun _ => buttonComponent),
  ("src/assets/styles/main.css", fun _ => mainStyles),
  (".gitignore", fun _ => ignoredFiles),
  ("README.md", readme)]

def file (path name : Text) : Except Fault Text :=
  match files.find? (·.1 = path) with
  | some f => .ok (f.2 name)
  | none => .error (.missingKey path)

/-- Whether a path leads nowhere or to a folder without entries. -/
def isEmptyFolder (p : Path) : Engine Bool := do
  match ← Engine.find? p with
  | none => return true
  | some (.file _) => return false
  | some (.folder _) => return (← Engine.openFolder p).isEmpty

def writeEach (target : Path) (name : Text) : List (Text × (Text → Text)) → Builder (List Text)
  | [] => pure []
  | (relative, content) :: rest => do
      let path := target.child relative
      Builder.makeFolders path.parent
      Builder.writeText path (content name)
      return relative :: (← writeEach target name rest)

/-- Writes the files of a new site, over what is there, and gives their paths. -/
def create (target : Path) (name : Text) : Builder (List Text) := writeEach target name files

end StaticSite.Starter
