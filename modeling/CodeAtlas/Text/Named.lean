import CodeAtlas.Text.Compatibility

/-!
# Named characters

Characters are found by their names. Ideographs, syllables and Latin letters with a mark are named
by a rule, others in a table, which has the letters, punctuation and symbols most in use.
-/

namespace CodeAtlas.Text

/-! ### Names in the table -/

/-- Names of successive characters: how each of them begins, the code point of the first, and how
they go on. -/
def nameRows : List (String × Nat × String) := [
  ("", 0x0, "NULL"), ("", 0x8, "BACKSPACE,TAB,LINE FEED,LINE TABULATION,FORM FEED,CARRIAGE RETURN"),
  ("", 0x1b, "ESCAPE"),
  ("", 0x20, "SPACE,EXCLAMATION MARK,QUOTATION MARK,NUMBER SIGN,DOLLAR SIGN,PERCENT SIGN"),
  ("", 0x26, "AMPERSAND,APOSTROPHE,LEFT PARENTHESIS,RIGHT PARENTHESIS,ASTERISK,PLUS SIGN,COMMA"),
  ("", 0x2d, "HYPHEN-MINUS,FULL STOP,SOLIDUS"),
  ("DIGIT ", 0x30, "ZERO,ONE,TWO,THREE,FOUR,FIVE,SIX,SEVEN,EIGHT,NINE"),
  ("", 0x3a, "COLON,SEMICOLON,LESS-THAN SIGN,EQUALS SIGN,GREATER-THAN SIGN,QUESTION MARK"),
  ("", 0x40, "COMMERCIAL AT"),
  ("LATIN CAPITAL LETTER ", 0x41, "A,B,C,D,E,F,G,H,I,J,K,L,M,N,O,P,Q,R,S,T,U,V,W,X,Y,Z"),
  ("", 0x5b, "LEFT SQUARE BRACKET,REVERSE SOLIDUS,RIGHT SQUARE BRACKET,CIRCUMFLEX ACCENT,LOW LINE"),
  ("", 0x60, "GRAVE ACCENT"),
  ("LATIN SMALL LETTER ", 0x61, "A,B,C,D,E,F,G,H,I,J,K,L,M,N,O,P,Q,R,S,T,U,V,W,X,Y,Z"),
  ("", 0x7b, "LEFT CURLY BRACKET,VERTICAL LINE,RIGHT CURLY BRACKET,TILDE"), ("", 0x7f, "DELETE"),
  ("", 0xa0, "NO-BREAK SPACE,INVERTED EXCLAMATION MARK,CENT SIGN,POUND SIGN,CURRENCY SIGN"),
  ("", 0xa5, "YEN SIGN,BROKEN BAR,SECTION SIGN"), ("", 0xa9, "COPYRIGHT SIGN"),
  ("", 0xab, "LEFT-POINTING DOUBLE ANGLE QUOTATION MARK,NOT SIGN,SOFT HYPHEN,REGISTERED SIGN"),
  ("", 0xb0, "DEGREE SIGN,PLUS-MINUS SIGN,SUPERSCRIPT TWO,SUPERSCRIPT THREE"),
  ("", 0xb5, "MICRO SIGN,PILCROW SIGN,MIDDLE DOT"),
  ("", 0xbb, "RIGHT-POINTING DOUBLE ANGLE QUOTATION MARK,VULGAR FRACTION ONE QUARTER"),
  ("", 0xbd, "VULGAR FRACTION ONE HALF,VULGAR FRACTION THREE QUARTERS,INVERTED QUESTION MARK"),
  ("", 0xd7, "MULTIPLICATION SIGN"), ("", 0xf7, "DIVISION SIGN"),
  ("LATIN CAPITAL LETTER ", 0xc6, "AE"), ("LATIN CAPITAL LETTER ", 0xd8, "O WITH STROKE"),
  ("LATIN SMALL LETTER ", 0xdf, "SHARP S"), ("LATIN SMALL LETTER ", 0xe6, "AE"),
  ("LATIN SMALL LETTER ", 0xf8, "O WITH STROKE"),
  ("GREEK CAPITAL LETTER ", 0x391, "ALPHA,BETA,GAMMA,DELTA,EPSILON,ZETA,ETA,THETA,IOTA,KAPPA"),
  ("GREEK CAPITAL LETTER ", 0x39b, "LAMDA,MU,NU,XI,OMICRON,PI,RHO"),
  ("GREEK CAPITAL LETTER ", 0x3a3, "SIGMA,TAU,UPSILON,PHI,CHI,PSI,OMEGA"),
  ("GREEK SMALL LETTER ", 0x3b1, "ALPHA,BETA,GAMMA,DELTA,EPSILON,ZETA,ETA,THETA,IOTA,KAPPA,LAMDA"),
  ("GREEK SMALL LETTER ", 0x3bc, "MU,NU,XI,OMICRON,PI,RHO,FINAL SIGMA,SIGMA,TAU,UPSILON,PHI,CHI"),
  ("GREEK SMALL LETTER ", 0x3c8, "PSI,OMEGA"),
  ("", 0x2010, "HYPHEN,NON-BREAKING HYPHEN,FIGURE DASH,EN DASH,EM DASH,HORIZONTAL BAR"),
  ("", 0x2018, "LEFT SINGLE QUOTATION MARK,RIGHT SINGLE QUOTATION MARK"),
  ("", 0x201a, "SINGLE LOW-9 QUOTATION MARK,SINGLE HIGH-REVERSED-9 QUOTATION MARK"),
  ("", 0x201c, "LEFT DOUBLE QUOTATION MARK,RIGHT DOUBLE QUOTATION MARK"),
  ("", 0x201e, "DOUBLE LOW-9 QUOTATION MARK"), ("", 0x2020, "DAGGER,DOUBLE DAGGER,BULLET"),
  ("", 0x2026, "HORIZONTAL ELLIPSIS"),
  ("", 0x200b, "ZERO WIDTH SPACE,ZERO WIDTH NON-JOINER,ZERO WIDTH JOINER"),
  ("", 0x2028, "LINE SEPARATOR,PARAGRAPH SEPARATOR"), ("", 0x20ac, "EURO SIGN"),
  ("", 0x2122, "TRADE MARK SIGN"),
  ("", 0x2190, "LEFTWARDS ARROW,UPWARDS ARROW,RIGHTWARDS ARROW,DOWNWARDS ARROW,LEFT RIGHT ARROW"),
  ("", 0x2200, "FOR ALL"), ("", 0x2203, "THERE EXISTS"), ("", 0x2208, "ELEMENT OF"),
  ("", 0x2211, "N-ARY SUMMATION,MINUS SIGN"), ("", 0x221a, "SQUARE ROOT"), ("", 0x221e, "INFINITY"),
  ("", 0x2260, "NOT EQUAL TO"), ("", 0x2264, "LESS-THAN OR EQUAL TO,GREATER-THAN OR EQUAL TO"),
  ("", 0x2603, "SNOWMAN"), ("", 0x2713, "CHECK MARK,HEAVY CHECK MARK"),
  ("", 0xfeff, "BYTE ORDER MARK"), ("", 0xfffd, "REPLACEMENT CHARACTER"), ("", 0x1f40d, "SNAKE"),
  ("", 0x1f600, "GRINNING FACE"), ("", 0x1f680, "ROCKET")]

/-- The code point that the table gives to a name. -/
def tableCode? (name : String) : Option Nat :=
  nameRows.findSome? fun (lead, first, names) =>
    ((names.splitOn ",").findIdx? (lead ++ · = name)).map (first + ·)

/-! ### Names by rule -/

def ideographLead : List Char := "CJK UNIFIED IDEOGRAPH-".toList

/-- The ranges of ideographs that are named by their code points. -/
def ideographRanges : List (Nat × Nat) := [
  (0x3400, 0x4DBF), (0x4E00, 0x9FFF), (0x20000, 0x2A6DF), (0x2A700, 0x2B738), (0x2B740, 0x2B81D),
  (0x2B820, 0x2CEA1), (0x2CEB0, 0x2EBE0), (0x30000, 0x3134A)]

/-- The ideograph with a code point, which has four or five digits. -/
def ideographCode? (digits : List Char) : Option Nat :=
  let code := hexNat digits
  let isDigit (c : Char) : Bool := c.isDigit || ('A' ≤ c && c ≤ 'F')
  if (digits.length = 4 || digits.length = 5) && digits.all isDigit
      && ideographRanges.any (fun (a, b) => a ≤ code && code ≤ b) then some code
  else none

def syllableLead : List Char := "HANGUL SYLLABLE ".toList

/-- The sounds that a syllable starts with. -/
def initialSounds : List String := [
  "G", "GG", "N", "D", "DD", "R", "M", "B", "BB", "S", "SS", "", "J", "JJ", "C", "K", "T", "P", "H"]

def vowelSounds : List String := [
  "A", "AE", "YA", "YAE", "EO", "E", "YEO", "YE", "O", "WA", "WAE", "OE", "YO", "U", "WEO", "WE",
  "WI", "YU", "EU", "YI", "I"]

/-- The sounds that a syllable ends with. -/
def finalSounds : List String := [
  "", "G", "GG", "GS", "N", "NJ", "NH", "D", "L", "LG", "LM", "LB", "LS", "LT", "LP", "LH", "M",
  "B", "BS", "S", "SS", "NG", "J", "C", "K", "T", "P", "H"]

/-- The longest sound at the beginning of a text, by its number, and what follows it. -/
def longestSound? (sounds : List String) (cs : List Char) : Option (Nat × List Char) :=
  let best := sounds.zipIdx.foldl (fun (best : Option (List Char × Nat)) (sound, i) =>
    let s := sound.toList
    match best with
    | some (b, _) => if b.length < s.length && s.isPrefixOf cs then some (s, i) else best
    | none => if s.isPrefixOf cs then some (s, i) else none) none
  best.map fun (s, i) => (i, cs.drop s.length)

/-- The syllable with given sounds. -/
def syllableCode? (cs : List Char) : Option Nat := do
  let (i, cs) ← longestSound? initialSounds cs
  let (v, cs) ← longestSound? vowelSounds cs
  let (f, cs) ← longestSound? finalSounds cs
  if cs.isEmpty then return 0xAC00 + (i * vowelSounds.length + v) * finalSounds.length + f else none

/-- The marks that Latin letters are named with. -/
def letterMarks : List (String × Nat) := [
  ("GRAVE", 0x300), ("ACUTE", 0x301), ("CIRCUMFLEX", 0x302), ("TILDE", 0x303), ("MACRON", 0x304),
  ("BREVE", 0x306), ("DOT ABOVE", 0x307), ("DIAERESIS", 0x308), ("HOOK ABOVE", 0x309),
  ("RING ABOVE", 0x30a), ("DOUBLE ACUTE", 0x30b), ("CARON", 0x30c), ("DOT BELOW", 0x323),
  ("CEDILLA", 0x327), ("OGONEK", 0x328)]

/-- The letter that is composed of the Latin letter and the mark of a name. -/
def markedLetter? (name : String) : Option Char :=
  match name.splitOn " WITH " with
  | [letter, mark] => do
    let letter ← (tableCode? letter).map Char.ofNat
    let mark ← letterMarks.lookup mark
    if letter.isAlpha then composePair letter (Char.ofNat mark) else none
  | _ => none

def named? (name : String) : Option Char :=
  let cs := name.toList
  if syllableLead.isPrefixOf cs then (syllableCode? (cs.drop syllableLead.length)).map Char.ofNat
  else if ideographLead.isPrefixOf cs then
    (ideographCode? (cs.drop ideographLead.length)).map Char.ofNat
  else ((tableCode? name.toUpper).map Char.ofNat).or (markedLetter? name.toUpper)

end CodeAtlas.Text
