import CodeAtlas.Document

/-!
# A page to browse the documents

The page is made from a template by putting the four documents in the places that are marked for
them. They are put in one after the other, so a mark that comes in with a document is filled too.
-/

namespace CodeAtlas.Page

/-! ### The look of the page and what it does -/

/-- The lines of the style sheet and then those of the script, from the theme on. -/
def assets : List String := Text.unpack [
  "eNrdXF9vG7kRf8+nYH3Xk9xaimTZjiNbDhInuTOQP9fEAQoYwZnanZV4WS1VLtd/LmegD30scA/tQ4s+9LFfoZ+nX6D9",
  "CCVHu+ZqyV06itMcKgGxlxzODH+cGQ6H6xD12U/lZQwHd0j+GQrOJXmvns2n0xlPOnPBZlRcDskXEX72bJIUAp6EOdG2",
  "/jqIpvwMhCKAXf2tEki4kCVRfaq/TqKysB38WMK4CEF0Ah5zLTDET5WIBgEk8pqo17s3jqIaIlQdibZ3xoMqUcpCGFPR",
  "OWehnA7JoNebXxiaqzvXv56EVNKOnMIMRmtqBu/W3jYD3gf99QC+GepvA+ADqr8ewKGnv17AaU9/PYBv9fTXA/gWvQ9e",
  "wHd2xj0kssH8VQU6NY8JS4akIndOw5AlE6t9zC/Uwv2AXbn6qsmWhKThZUVYxJWSEZ2xWIHSofN5DJ30MpUw2yCPYpa8",
  "e06D1/j8VFFukNZrmHAgb45aG+QVH3PJN0hKk1RhK1hU0YwG7yaCZ0k4JGdUtMs2sb5MilgWVLhWbropsMlUDkm/1zub",
  "LndpoKOYnw/JlIUhJE4EuoGaBWUJiAoOIUvnMVUYRDFceGTaXHPHqfBEN1pMquJb636gjLFWiPM1FrlS8wuS8piFOHDZ",
  "gM1AzxSxpRMyAYFkPBnq5chmySr4ToGGCK7TdPs782XJxmKl5DPPdBolTvsOy9aOAYrrrhJrd57nC7vT6+05PPBaKRzd",
  "IHreIHlTjfVYur3QtskKHqe1oG7ePqgpUBFMdSBx2TT6wi+d4QnRqlXJo4vb0GnIsnRItpDlpwov9sqhvFWsImKxVHpL",
  "Ok5vHmQmdI5TdPjludB9+l+fvDoL2fk/WRLbmTKRai5zzhIJYrlTCpqkbBHQaByTXncz9SE4xP2avPfPCgnXffy6NJDs",
  "DLwMyymFG6jzKZPgXA0kcDJyaycFGIWMnSl83QG/owyWZpLX+3u9nA6TMGsyy13vkvrtz20sg2pnlqqhKcQQyCFJeAL1",
  "5mIWSFlNfzv1THBlq3Gz6y6UhPC2zMa3Pl0W8MSZhRZpxk7dIs+oItI7lNLDbVSfIQmRnMdjKpo2zNtJRfyT+j5LJYsu",
  "C4iGJJ3TADpjkOcAlcnRmE0SXJFUzR7Q/J3zw4NXR/LJJIafZ8y3cxp/1PdHAfeW4I/6fhRvx4NDkJTFnTlNIL7FCLuJ",
  "mHsFTjfr89BNTzZj3MEjY1AnA1m4ZUg+92uweqps65ouQgh53yDPj6rg54aDneP2PiB1jFkCnetzZHfHKzeVgicTI96P",
  "R23wbtihAx6qUBTz4F1Fkt+nbz+m+M82dsGidcgzwUCQF3CuChIznnCMr/6swPbBi8IHbSDNgjtAHNNwAnWJPktw6RHj",
  "Ou+2siALIIShfk79xtPtdq9XbxyIfcO8OhHTW8ySQXwBg2gzCvdIUQDr37+3E27ukavq4CCmaVodHQ1AlVXN6HvjfkRd",
  "o6MsQTe2xO9G23DfMBjs7sIgcDCY8TCztY8ipUHPDI+27wUKIk95swmPPgzodmQ47myNt6MdzdHP0I3RFu1v7QaGYwD3",
  "B+Guh6MPt/54GzZLE9/tB/d2tzxMm7GEne1+r4xlNL63FS5h2YXZXF52Ukll1UswhGHSY9Iddy6jjBTj9cr7g61L81a2",
  "u+rhX/OuPfZPBFsub2OLUn2m+iV0Fhmv8ncBc6CyreORsjipIhtLZvSi3d9WFfkN0o/E+rpVPzA7sHfPc+vdCagIP+9O",
  "YHC1S4d+1btnNM6gIQtqrgPe89QBbwBeN6ZjiG+9HmjcBdPbiAulTjafgwhoCmWl8ELsbuVG7O5dcqyd+rrhOkSwhEns",
  "aq9byUaSSpLSMwiRgIxIzAMav5Zc0Al0JyCPJMzaLQwXrXXy44+kFWsgW5XDEQ+yGSSyW/zyJAZ8TkE+lFKwcSah3TKh",
  "p7VRElvBIJsrOsCeR5mUPGnbpIiDPdVFot802SATQh9jR/U6T+p0VsJthgmc59gZ3qMRaenQ2iIPCrzIMG/6aOBQog3b",
  "8sqlxcpZg3xYI6EfaXsgSnKDPpZJGfAJFNN8dHkUKh3NIc0CWQ3taqc4zMsPI4LUFYz/9Zff//ufP5FnGmrynIeAeP/n",
  "73/8K3msaBZNjgmh2zzKWBwSrJjhudye7FhTHCuCI91fY1k4Vul38nYvZ29EPGUxpEuNLCLtoxePn/z2u8cPjx92I01g",
  "+JpPlaYbcfGEBtN2Wz9uEBZerJPRAY60P6hTd56l0zYSOD/ycg4KLc2vtVFLldCZotJE9TQsHJJTTdL58r1S7Oq0lhQZ",
  "HYUXQz0BJ9GVMgRf25UF9KHOtJqhxmTMCzZSleEO4tSHNtoBAqVmpuNBnJ703u55aMmoLFe3pCc5j6axiKCRs+mlJSPL",
  "mE6QR62cjzYpBNFnU/hvo6HczO5QmN/wkOwTWN7TPFg0u3lO5LE+Q2fsTzd9qAHqMZ/YAo2gn6cJFkj+r6ywkOc3RE15",
  "23YoQGYiWQBUt909xYuruq0uwt7FPockxlJtEfklGBI6rRKzUrUQOVvsrrpHnjXlav1C7+s0jltGrm8IpgJoTC3y1Veo",
  "WVevPvLCDsUsVzuiMebSN2eM8cLNGrtW522M08HddPoE4PLasL/G2/0m4FOk+E0G6hTSGFB+p0mU75YGdCV/xs9BHNIU",
  "2padWpaCQWV5TJclQZyFkLaRvT5bGC72B20MQwZClT94eK77wTJ6SpEhuLaz2T70CpIQBOaMtgsJ7DwWUHMGwWGN+bCA",
  "msOGcgx0TTKyclIHeb74EJLRkl8XXNQYa7MqhnRjSCZyinbac5gHTkLhnYD45vj5MyWhtR+yM4Kn0tFacaTHE/3i+Os+",
  "/ZbqQ4vy0NrBC04EpFks0/27iuVBa69myaxQ2Kjf9cxmdF6JWDZyeFk6Mi5pgow6b+iTxZ/+oI8YTRZbHYzRIh/909/U",
  "cSU/o/z5HzhBlxZYlmtQw5Qra5Xxa1MqUaJGywVGh251DnTqVACtArmP1q5vo9cInmhZOFr78j1qxsKrNVPMsJikc5oU",
  "XPTarB2ocern1f5d3XXDkQs8v3yPP6+QR4GKl5GiLQLZlY8Iw9QDcro/Fgf76Uz5W+EXTa6QV6JiiORQV7FQv5yd1g8Z",
  "HZzqNWq5VUB/sadwWg1r3e85S9qt1rp9Un0oJQ2mCjAWvCNTmoQxiNR2LIyvr/EVBi4exnG7ZV41aK1fZ60Qu50M4i4N",
  "wydnkMhnLJWQgGi3UKYqVbS9Ga6WcqSjGsSuag0L1cw8w8noOpgqfJOwzbRQpuxQ+0cuoYZLivPWYzGO1FA5GhHhN1g5",
  "QSboYYZuVZC15rA4sWo0uwJm/EyBsRABCo0aFSE2o/SClIY05J7+7RF1znFWJkTSKT8ni5tPO+W04KwsfaGSJshjoWuv",
  "w7vrpl21fMdtWX4MkkzlTDM43Z9uHhhv156nGio+hLS/VsQmvJnwcqNwvXJArsYt9PlT25Of8YDm9d+IO5VvlZVfvlZf",
  "O9ifDg4KFgqBQXUbZlEpJzNr5oHIXH8rCYsL8ANdHBvu382fSjHUTM5z9v4aJIlzXXFncWtqwC7AxLz72cvDh8dHL19U",
  "jt4NXSfILj/AvV2vySJQJzK6GZO91fF7xhJIlwCMuT6NX5FO/vvgbQ2SBOIUXAChuCo6pixW15FPCh9uAI2Xx+dD5k6N",
  "xxQZ6R3XKXfKEpl+kO2ZcghSIIN60PTQx1RSU0fxWJTNxDgKbqAFxyLdPyAD8uC6VcGDgcpwrWOKipORcz4nRqJDKefR",
  "1MJhpfCFa/KNZmUFMJe87pwKOkPbLj8baOxzkF8r2yi/1VxBgihZZmFW9dyNQqWaYFGl28BqFzqcM3Xye495S0jvLrXV",
  "wKshcfQWwm1X8qQQpt2zMosTBtZFsiSEiCUQWouxSoR4hYytlcAp3B585UkYlDxINMcfa5xni3zMAzVDlkzs+PT45eHr",
  "41dHL75+jTpr+28KWYbcU9M20SHkwZNEYg2pbnSehYfafkNVs0bB5chjWw4qX7DWmhW/n/TfVh5tH149qjzOE0x3ZmQ+",
  "S/KNy+pTn99TDXDHit6BW3i9nt9pjtdsP8pwIQ3oHL5RhO1c8rrHWtf3PpG9HtI4yGIqobxfsYgkXFfBBNDwkuSBwErk",
  "zYi9G2/Gn2rT/cjt1ocSn83AlXMcvnz+/MmL45t5tCG+oT8HSmzu0Gawy50DbeRB4c4GihpnNnyVVvhg3BmfP4U/I4ae",
  "HAFl1/ryBtnAt399Pm3A065lYRfkingcerU0WOe76sfVUjZs/B2h/3wOj4fycrUWGTa/gVJSXmPlLrUrZco1gUAAlZCX",
  "Bdot1VstdKimyvsm+mnPcQWmSY3KtaUQVfrA94/PGJw7ah+q+2Xei7cFt1DYKLNw8Fu8vThy2CneoQ2tK1rywGoq/G9I",
  "evYFJ1pihRG2ISursYmZQWqZXdGKDO3mZpb4mmtFP2xD/azGMrNlG97zGbFdEde1pW8F/16Xx4p1x/rSnaa6OS5ZXh73",
  "0eE7ijmtjx5fpdQbPwpYLG3u/zcajy9CrmEBJ20Yhl2fWntcrdX0f44jP/8MsHWlGRzqp88/A+OAq1hRMdY/ixs2N+z8",
  "bvY6HXg45pnEXMBNMj84nrKU4J+s5X/4q50YRPEKeErkFFR/CBcQklSKLJCZAMIjcskzQb69lFOekPkiCnT3787rJBWX",
  "RqU/scJroTcpoIzif6SQnCT0jE2o1O2CZ5PpIpZvFLF4A8vwJjySQ7zf4Ylqv8TcUDHBeaiHtCjVG908YJ/W7X54w0Pi",
  "/IrHpKk3fBW04ZJoQVK8qepnnP9nByyZZ9LJGHv07RPYWZx58wFTXuhKKpSALlp/NTcwl/8lVFw6uu53zF+Vly541JOt",
  "kmr8gDu01WVrPtJxubSwfcfVEqq2fK9kqG3iymsxONhxp7dQzjDwIY6oWytgLPMoYZLRmP0ARWv5Pfk9v0Hl/ttJqH4z",
  "vJIzlpMIkJQ8qLZ08+H6fifPB0zOXMkKTbs9VZXNB4LN5cF/AefFxu4="]

/-- The style sheet: the colours of both themes, the frame, the tree and the details. -/
def styleSheet : List String := assets.take 269

/-- The script: changing the theme, finding, showing and filtering items, and what is done on
events. -/
def script : List String := assets.drop 269


/-! ### The page as it is before the documents are put in -/

def head : List String := [
  "<!DOCTYPE html>",
  "<html lang=\"en\">",
  "<head>",
  "    <meta charset=\"UTF-8\">",
  "    <meta name=\"viewport\" content=\"width=device-width, initial-scale=1.0\">",
  "    <title>PY-Indexer v3.1 Viewer</title>"]

/-- The elements of the page. -/
def body : List String := [
  "</head>",
  "<body>",
  "    <div class=\"container\">",
  "        <aside class=\"sidebar\">",
  "            <div class=\"header\">",
  "                <h1>PY-Indexer v3.1</h1>",
  "                <p id=\"project-name\">Loading...</p>",
  "            </div>",
  "            <div class=\"controls\">",
  "                <input ",
  "                    type=\"text\" ",
  "                    class=\"search-box\" ",
  "                    id=\"search-input\" ",
  "                    placeholder=\"Search...\"",
  "                >",
  "                <div class=\"filter-tabs\">",
  "                    <button class=\"filter-tab active\" data-filter=\"all\">All</button>",
  "                    <button class=\"filter-tab\" data-filter=\"files\">Files</button>",
  "                    <button class=\"filter-tab\" data-filter=\"classes\">Classes</button>",
  "                    <button class=\"filter-tab\" data-filter=\"functions\">Functions</button>",
  "                </div>",
  "            </div>",
  "            <div class=\"tree\" id=\"tree\"></div>",
  "        </aside>",
  "",
  "        <main class=\"main-content\">",
  "            <div class=\"toolbar\">",
  "                <div id=\"breadcrumb\"></div>",
  "                <button class=\"theme-toggle\" id=\"theme-toggle\">🌙 Dark Mode</button>",
  "            </div>",
  "            <div class=\"detail-panel\" id=\"detail-panel\">",
  "                <div class=\"empty-state\">",
  "                    <h3>Welcome to PY-Indexer Viewer</h3>",
  "                    <p>Select an item from the sidebar to view details</p>",
  "                </div>",
  "            </div>",
  "        </main>",
  "    </div>",
  ""]

/-- The beginning of the script: the documents, which stand in it as values, and the state. -/
def dataScript : List String := [
  "    <script>",
  "        // Embedded JSON data (replaced by Python generator)",
  "        const INDEX_DATA = \x7b\x7bINDEX_DATA\x7d\x7d;",
  "        const LOCATION_DATA = \x7b\x7bLOCATION_DATA\x7d\x7d;",
  "        const DOCSTRINGS_DATA = \x7b\x7bDOCSTRINGS_DATA\x7d\x7d;",
  "        const COMMENTS_DATA = \x7b\x7bCOMMENTS_DATA\x7d\x7d;",
  "",
  "        // State",
  "        let currentFilter = 'all';",
  "        let searchQuery = '';",
  "        let selectedItem = null;",
  ""]

def foot : List String := [
  "</body>",
  "</html>"]

def lines : List String := head ++ styleSheet ++ body ++ dataScript ++ script ++ foot

/-- The page as it is before the documents are put in. -/
def template : String := String.join (lines.map (· ++ "\n"))


/-! ### A page to browse the documents -/

open CodeAtlas.Action

/-- The four documents of a project. -/
structure Documents where
  skeleton : Value
  places : Value
  docstrings : Value
  comments : Value

/-- The places of a template, in the order in which they are filled. -/
def marks : List String := [
  "\x7b\x7bINDEX_DATA\x7d\x7d",
  "\x7b\x7bLOCATION_DATA\x7d\x7d",
  "\x7b\x7bDOCSTRINGS_DATA\x7d\x7d",
  "\x7b\x7bCOMMENTS_DATA\x7d\x7d"]

/-- Fills marks with texts, one after the other. -/
def fill (template : String) (fillings : List (String × String)) : String :=
  fillings.foldl (fun page (mark, text) => Text.replaceAll page mark text) template

/-- How documents are written in the page. -/
def style : Json.Style where
  layout := .spaced
  ascii := false

/-- Puts the documents into a template. -/
def embed (template : String) (d : Documents) : Action String := do
  let texts ← [d.skeleton, d.places, d.docstrings, d.comments].mapM (jsonText style)
  return fill template (marks.zip texts)

/-- Where a template comes from. -/
inductive Source where
  | builtin
  | file (path : Path)

/-- The template, if it can be found. -/
def Source.read : Source → Action String
  | .builtin => pure template
  | .file path => do
    if !(← isThere path) then
      error s!"Template not found: {path.text}"
      throw (.missing .template path.text)
    return String.ofList (← readText path)

def templateName : String := "template_static_html.html"

def fileName : String := "index.html"

def generate (dir : Path) (source : Source) (d : Documents) : Action Path := do
  info "Generating static HTML viewer..."
  let template ← source.read
  let page ← embed template d
  let file := dir.child fileName
  writeText file page
  let size ← fileSize file
  info s!"Generated HTML viewer: {file.text} ({Fixed.mebibytes size} MB)"
  return file

def Source.isThere : Source → Action Bool
  | .builtin => pure true
  | .file path => Action.isThere path

end CodeAtlas.Page
