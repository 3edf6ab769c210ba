import CHeader.Text.Basic

/-!
# Styles

A style is written as words: attributes, which `not` turns off, a color, a background color after
`on`, and a target after `link`. Two ways to write a style have one normal form: the attributes in a
fixed order and by their long names, then the color, the background and the link.
-/
namespace CHeader.Console

open Text

structure Style where
  /-- The attributes that are turned on or off. -/
  attributes : List (Text × Bool)
  color : Option Text
  background : Option Text
  link : Option Text

namespace Style

def plain : Style := ⟨[], none, none, none⟩

/-- The attributes in the order of the normal form, each with its short name. -/
def attributeNames : List (Text × Option Text) := [
  ("bold".toList, some ['b']), ("dim".toList, some ['d']), ("italic".toList, some ['i']),
  ("underline".toList, some ['u']), ("blink".toList, none), ("blink2".toList, none),
  ("reverse".toList, some ['r']), ("conceal".toList, some ['c']), ("strike".toList, some ['s']),
  ("underline2".toList, some ['u', 'u']), ("frame".toList, none), ("encircle".toList, none),
  ("overline".toList, some ['o'])]

def attribute? (word : Text) : Option Text :=
  (attributeNames.find? fun (long, short) => long = word || short = some word).map Prod.fst

/-! ## Colors -/

def colorNames : List Text :=
  let lines := [
    "black red green yellow blue magenta cyan white bright_black bright_red bright_green",
    "bright_yellow bright_blue bright_magenta bright_cyan bright_white grey0 gray0 navy_blue",
    "dark_blue blue3 blue1 dark_green deep_sky_blue4 dodger_blue3 dodger_blue2 green4",
    "spring_green4 turquoise4 deep_sky_blue3 dodger_blue1 green3 spring_green3 dark_cyan",
    "light_sea_green deep_sky_blue2 deep_sky_blue1 spring_green2 cyan3 dark_turquoise turquoise2",
    "green1 spring_green1 medium_spring_green cyan2 cyan1 dark_red deep_pink4 purple4 purple3",
    "blue_violet orange4 grey37 gray37 medium_purple4 slate_blue3 royal_blue1 chartreuse4",
    "dark_sea_green4 pale_turquoise4 steel_blue steel_blue3 cornflower_blue chartreuse3",
    "cadet_blue sky_blue3 steel_blue1 pale_green3 sea_green3 aquamarine3 medium_turquoise",
    "chartreuse2 sea_green2 sea_green1 aquamarine1 dark_slate_gray2 dark_magenta dark_violet",
    "purple light_pink4 plum4 medium_purple3 slate_blue1 yellow4 wheat4 grey53 gray53",
    "light_slate_grey light_slate_gray medium_purple light_slate_blue dark_olive_green3",
    "dark_sea_green light_sky_blue3 sky_blue2 dark_sea_green3 dark_slate_gray3 sky_blue1",
    "chartreuse1 light_green pale_green1 dark_slate_gray1 red3 medium_violet_red magenta3",
    "dark_orange3 indian_red hot_pink3 medium_orchid3 medium_orchid medium_purple2 dark_goldenrod",
    "light_salmon3 rosy_brown grey63 gray63 medium_purple1 gold3 dark_khaki navajo_white3 grey69",
    "gray69 light_steel_blue3 light_steel_blue yellow3 dark_sea_green2 light_cyan3",
    "light_sky_blue1 green_yellow dark_olive_green2 dark_sea_green1 pale_turquoise1 deep_pink3",
    "magenta2 hot_pink2 orchid medium_orchid1 orange3 light_pink3 pink3 plum3 violet",
    "light_goldenrod3 tan misty_rose3 thistle3 plum2 khaki3 light_goldenrod2 light_yellow3 grey84",
    "gray84 light_steel_blue1 yellow2 dark_olive_green1 honeydew2 light_cyan1 red1 deep_pink2",
    "deep_pink1 magenta1 orange_red1 indian_red1 hot_pink dark_orange salmon1 light_coral",
    "pale_violet_red1 orchid2 orchid1 orange1 sandy_brown light_salmon1 light_pink1 pink1 plum1",
    "gold1 navajo_white1 misty_rose1 thistle1 yellow1 light_goldenrod1 khaki1 wheat1 cornsilk1",
    "grey100 gray100 grey3 gray3 grey7 gray7 grey11 gray11 grey15 gray15 grey19 gray19 grey23",
    "gray23 grey27 gray27 grey30 gray30 grey35 gray35 grey39 gray39 grey42 gray42 grey46 gray46",
    "grey50 gray50 grey54 gray54 grey58 gray58 grey62 gray62 grey66 gray66 grey70 gray70 grey74",
    "gray74 grey78 gray78 grey82 gray82 grey85 gray85 grey89 gray89 grey93 gray93"]
  lines.flatMap fun line => words line.toList

/-- What stands between a beginning and a closing parenthesis at the end. -/
def arguments? (opening word : Text) : Option Text := do
  let rest ← dropLeading? opening word
  if rest.getLast? = some ')' then some rest.dropLast else none

def isHexDigit (c : Char) : Bool := c.isDigit || ('a' ≤ c && c ≤ 'f')

def isHexColor : Text → Bool
  | '#' :: digits => digits.length = 6 && digits.all isHexDigit
  | _ => false

/-- A number of the palette. -/
def isPaletteColor (word : Text) : Bool :=
  match arguments? "color(".toList word with
  | some digits => 1 ≤ digits.length && digits.length ≤ 3 && digits.all Char.isDigit &&
      digitsValue digits ≤ 255
  | none => false

/-- Red, green and blue as numbers up to 255. -/
def isMixedColor (word : Text) : Bool :=
  match arguments? "rgb(".toList word with
  | some parts =>
    let parts := (splitOn ',' parts).map trim
    parts.length = 3 && parts.all fun part => part ≠ [] && part.all isDigit && digitsValue part ≤ 255
  | none => false

/-- A text in lower case; letters beyond ASCII stay as they are. -/
def lower (s : Text) : Text := s.map Char.toLower

/-- The color that a word names, in lower case. -/
def color? (word : Text) : Option Text :=
  let word := trim (lower word)
  if word = "default".toList || colorNames.contains word || isHexColor word ||
    isPaletteColor word || isMixedColor word then some word else none

/-! ## Reading and writing -/

/-- Read the words of a style into what was read before. -/
def ofWords? (style : Style) : List Text → Option Style
  | [] => some style
  | [word] =>
    if let some name := attribute? (lower word) then
      some { style with attributes := (name, true) :: style.attributes }
    else (color? word).map fun color => { style with color := some color }
  | word :: next :: rest =>
    if lower word = "on".toList then do
      let color ← color? next
      ofWords? { style with background := some color } rest
    else if lower word = "not".toList then do
      let name ← attribute? next
      ofWords? { style with attributes := (name, false) :: style.attributes } rest
    else if lower word = "link".toList then
      ofWords? { style with link := some next } rest
    else if let some name := attribute? (lower word) then
      ofWords? { style with attributes := (name, true) :: style.attributes } (next :: rest)
    else do
      let color ← color? word
      ofWords? { style with color := some color } (next :: rest)

def ofText? (text : Text) : Option Style :=
  if trim text = "none".toList then some plain else ofWords? plain (words text)

/-- The words of the normal form. The last setting of an attribute counts. -/
def toWords (style : Style) : List Text :=
  (attributeNames.flatMap fun (name, _) =>
    match style.attributes.lookup name with
    | some true => [name]
    | some false => ["not".toList, name]
    | none => []) ++
  style.color.toList ++
  (style.background.toList.flatMap fun color => ["on".toList, color]) ++
  style.link.toList.flatMap fun target => ["link".toList, target]

def render (style : Style) : Text :=
  match style.toWords with
  | [] => "none".toList
  | parts => joinWith [' '] parts

/-- The normal form of a style; a text that is no style is trimmed and put in lower case. -/
def normalForm (text : Text) : Text :=
  match ofText? text with
  | some style => style.render
  | none => lower (trim text)

end Style

end CHeader.Console
