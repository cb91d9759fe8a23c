import CodeAtlas.Catalog.Generate
import CodeAtlas.Command.Basic
import CodeAtlas.Locate.Build

/-!
# The command for catalogs

It makes the catalog of a project.
-/

namespace CodeAtlas.Command

/-! ### The command for catalogs -/

open CodeAtlas.Action CommandLine

def catalogSpec : Spec where
  program := "tech_index_generator_v3.py"
  description := "TECH-INDEX-PY v3.0 - полные исправления"
  operands := [
    { name := "project_path", help := "Путь к Python проекту" },
    { name := "output_path", help := "Путь к каталогу для индексов" }]
  flags := [
    helpFlag,
    formatFlag formatNames "Формат вывода (по умолчанию: json)",
    ⟨["--compress-names"], .switch, "Сжимать массив names с GZIP+Base64"⟩,
    lengthFlag "Длина хешей (по умолчанию: 16)"]
  epilog := Text.join "\n" [
  "Примеры:",
  "  python tech_index_generator_v3.py \"/path/to/project\" \"/path/to/output\"",
  "  python tech_index_generator_v3.py \"D:\\Project\" \"D:\\Output\" --format=json.gz",
  "  python tech_index_generator_v3.py \".\" \"./indexes\" --hash-len=32",
  "        "]

/-- A rule across the screen. -/
def wideRule : String := "".pushn '=' 70

/-- Makes the output directory, if it is not there; says whether there is one now. -/
def makeOutput (output : Path) : Action Bool := do
  if ← isThere output then
    if ← isDir output then return true
    print s!"❌ Ошибка: {output.text} существует и не является директорией"
    return false
  match ← attempt (makeDirs output) with
  | .ok () =>
    print s!"✅ Создана директория: {output.text}"
    return true
  | .error f =>
    print s!"❌ Ошибка создания директории {output.text}: {f.message}"
    return false

def finished : Action Nat := do
  print "\n✨ Готово!"
  return 0

def printFailure (f : Failure) : Action Unit := print s!"\n❌ Ошибка: {f.message}"

def catalog : List String → Action Ending :=
  run catalogSpec fun a => do
    let root ← pathAt a "project_path"
    if !(← isThere root) then return ← refuse s!"❌ Ошибка: {root.text} не существует"
    if !(← isDir root) then return ← refuse s!"❌ Ошибка: {root.text} не является директорией"
    let output ← pathAt a "output_path"
    if !(← makeOutput output) then return 1
    print wideRule
    print "TECH-INDEX-PY v3.0 Generator"
    print wideRule
    guarded (do
      let options : Catalog.Options :=
        { hashLength := a.numberOr "--hash-len" 16
          compress := a.isOn "--compress-names"
          format := a.textOr "--format" "json" }
      let p ← Catalog.prepare root.text output.text options
      let c ← Catalog.generate p {}
      Catalog.save p c
      finished) printFailure


/-! ### The command for locations -/

open CodeAtlas.Action CommandLine

def locateSpec : Spec where
  program := "location_index_builder_v2.py"
  description := "TECH-LOCATION Builder v2.0 (Compact)"
  operands := [
    { name := "project_path", help := "Путь к проекту" },
    { name := "tech_index_dir", help := "Директория с TECH-INDEX" },
    { name := "output_dir", help := "Директория для TECH-LOCATION" }]
  flags := [
    helpFlag,
    formatFlag ["json", "json.gz"] "Формат вывода",
    ⟨["--minify"], .switch, "Минифицированный JSON (без отступов)"⟩]

def locate : List String → Action Ending :=
  run locateSpec fun a => do
    let root ← resolve (← pathAt a "project_path")
    let dir ← resolve (← pathAt a "tech_index_dir")
    let output ← resolve (← pathAt a "output_dir")
    if !(← isThere root) then return ← refuse s!"❌ Проект не найден: {root.text}"
    if !(← isThere dir) then return ← refuse s!"❌ Директория с индексами не найдена: {dir.text}"
    match ← Locate.findCatalog? dir root.name with
    | none => refuse s!"❌ TECH-INDEX не найден в {dir.text}"
    | some catalog =>
      let format := a.textOr "--format" "json"
      let minify := a.isOn "--minify"
      print wideRule
      print "TECH-LOCATION Builder v2.0 (Compact)"
      print wideRule
      print s!"📁 Проект: {root.text}"
      print s!"📋 TECH-INDEX: {catalog.name}"
      print s!"💾 Вывод: {output.text}"
      print (s!"📝 Формат: {format}" ++ if minify then " (minified)" else "")
      print wideRule
      guarded (do
        let p ← Locate.prepare root.text catalog.text format minify
        let ((), l) ← perform p.build {}
        p.save l output
        finished) printFailure

end CodeAtlas.Command
