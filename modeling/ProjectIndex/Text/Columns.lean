import ProjectIndex.Text.Emoji
import ProjectIndex.Text.Width

/-!
# Columns that texts take

A text takes the columns of its characters, except where neighbours are drawn as one: emoji joined
by a joiner or followed by a skin tone, characters followed by the picture sign or the text sign,
and ligatures of some scripts.  A text is measured from its end to its start, because whether a
character is drawn alone depends on what follows it.
-/

namespace ProjectIndex.Columns

/-- What the text after a character offers it to join. -/
inductive Offer where
  | nothing
  /-- A skin tone. -/
  | tone
  /-- Letters of a flag. -/
  | flag (several : Bool)
  | picture
  /-- A joiner and a picture after it. -/
  | joined
  | joinedKeycap
  /-- So many letters of a flag before a joined picture. -/
  | joinedFlag (letters : Nat)
  /-- The end of a spelt flag before a joined picture, with the letters and digits before it. -/
  | joinedTag (letters digits : Nat)
  /-- The second halves of two vowel signs. -/
  | vowelE
  | vowelAi
  | alef
  /-- Letters that form a ligature across a joiner, which has been met or not. -/
  | lamed (joined : Bool)
  | orkhonI (joined : Bool)
  | ya (joined : Bool)
  | vowelYa
  | consonant (joined : Bool)
  | linkedConsonant
  /-- The second part of a tone letter. -/
  | toneLetter
  /-- A letter that can be written below the one before it. -/
  | footLetter
  deriving DecidableEq, Repr

/-- Signs that choose between picture and text. -/
inductive Presentation where
  | picture
  | text
  deriving DecidableEq, Repr

/-- What follows a character: an offer, and perhaps a sign in front of it. -/
structure After where
  offer : Offer
  sign : Option Presentation
  deriving DecidableEq, Repr

namespace Offer

/-- The offer stands when signs and marks come in between. -/
def lasts : Offer → Bool
  | .alef | .lamed _ | .orkhonI _ | .ya _ | .vowelYa | .consonant _ | .linkedConsonant
  | .toneLetter | .footLetter => true
  | _ => false

/-- The offer after a joiner in front of it, where the joiner itself takes part. -/
def join : Offer → Offer
  | .lamed _ => .lamed true
  | .orkhonI _ => .orkhonI true
  | .ya _ => .ya true
  | .consonant _ => .consonant true
  | offer => offer

/-- No sign stands in front of the offer. -/
def plain (offer : Offer) : After := ⟨offer, none⟩

end Offer

/-- Ignorable marks that ligatures reach across. -/
def passed : Ranges :=
  [(0x34F, 0x34F), (0x17B4, 0x17B5), (0x180B, 0x180D), (0x180F, 0x180F), (0x200D, 0x200D),
   (0xFE00, 0xFE0F), (0xE0100, 0xE01EF)]

/-- Characters without a column that the letters lam and alef do not reach across. -/
def apart : Ranges :=
  [(0x605, 0x605), (0x890, 0x891), (0x8E2, 0x8E2), (0x9BE, 0x9BE), (0x9D7, 0x9D7), (0xB3E, 0xB3E),
   (0xB57, 0xB57), (0xBBE, 0xBBE), (0xBD7, 0xBD7), (0xCC0, 0xCC0), (0xCC2, 0xCC2), (0xCC7, 0xCC8),
   (0xCCA, 0xCCB), (0xCD5, 0xCD6), (0xD3E, 0xD3E), (0xD57, 0xD57), (0xDCF, 0xDCF), (0xDDF, 0xDDF),
   (0x1160, 0x11FF), (0x1715, 0x1715), (0x1734, 0x1734), (0x180E, 0x180E), (0x1B35, 0x1B35),
   (0x1B3B, 0x1B3B), (0x1B3D, 0x1B3D), (0x1B43, 0x1B44), (0x1BAA, 0x1BAA), (0x1BF2, 0x1BF3),
   (0x200C, 0x200D), (0x2065, 0x2069), (0x302E, 0x302F), (0x3164, 0x3164), (0xA8FA, 0xA8FA),
   (0xA953, 0xA953), (0xA9C0, 0xA9C0), (0xD7B0, 0xD7C6), (0xD7CB, 0xD7FB), (0xFF9E, 0xFFA0),
   (0xFFF0, 0xFFF8), (0x111C0, 0x111C0), (0x11235, 0x11235), (0x1133E, 0x1133E), (0x1134D, 0x1134D),
   (0x11357, 0x11357), (0x113B8, 0x113B8), (0x113C2, 0x113C2), (0x113C5, 0x113C5),
   (0x113C7, 0x113C9), (0x113CF, 0x113CF), (0x114B0, 0x114B0), (0x114BD, 0x114BD),
   (0x115AF, 0x115AF), (0x116B6, 0x116B6), (0x11930, 0x11930), (0x1193D, 0x1193D),
   (0x11F41, 0x11F41), (0x16FF0, 0x16FF1), (0x1D165, 0x1D166), (0x1D16D, 0x1D172),
   (0xE0000, 0xE0000), (0xE0002, 0xE001F), (0xE0080, 0xE00FF), (0xE01F0, 0xE0FFF)]

def lams : Ranges :=
  [(0x644, 0x644), (0x6B5, 0x6B8), (0x76A, 0x76A), (0x8A6, 0x8A6), (0x8C7, 0x8C7)]

def alefs : Ranges :=
  [(0x622, 0x623), (0x625, 0x625), (0x627, 0x627), (0x671, 0x673), (0x675, 0x675), (0x773, 0x774),
   (0x870, 0x882)]

def consonants : Ranges :=
  [(0x2D31, 0x2D65), (0x2D6F, 0x2D6F)]

def footLetters : Ranges :=
  [(0x1780, 0x1782), (0x1784, 0x1787), (0x1789, 0x178C), (0x178E, 0x1793), (0x1795, 0x1798),
   (0x179B, 0x179D), (0x17A0, 0x17A0), (0x17A2, 0x17A2), (0x17A7, 0x17A7), (0x17AB, 0x17AC),
   (0x17AF, 0x17AF)]

/-- What a character offers to the one before it. -/
def offered (c : Char) : Offer :=
  if Emoji.isTone c then .tone
  else if Emoji.isFlagLetter c then .flag false
  else if Emoji.pictures.has c then .picture
  else if alefs.has c then .alef
  else if c = '\u05dc' then .lamed false
  else if footLetters.has c then .footLetter
  else if c = '\u1a10' then .ya false
  else if consonants.has c then .consonant false
  else if c = '\ua4fc' || c = '\ua4fd' then .toneLetter
  else if c.toNat = 0x10C03 then .orkhonI false
  else if c.toNat = 0x16D67 then .vowelE
  else if c.toNat = 0x16D68 then .vowelAi
  else .nothing

/-- A letter of the alphabet that flags are spelt with in small print. -/
def isTagLetter (c : Char) : Bool :=
  0xE0061 ≤ c.toNat && c.toNat ≤ 0xE007A

def isTagDigit (c : Char) : Bool :=
  0xE0030 ≤ c.toNat && c.toNat ≤ 0xE0039

/-- The spelling of a flag is complete. -/
def isSpelt (letters digits : Nat) : Bool :=
  if digits = 0 then 3 ≤ letters && letters ≤ 6 else digits = 3

/-- A character that takes up an offer: the columns that this adds, and what it offers in turn. -/
def accept? (c : Char) : Offer → Option (Int × Offer)
  | .nothing | .lamed false | .orkhonI false | .ya false | .joinedKeycap => none
  | .tone =>
    if Emoji.tonable.has c then some (0, .picture)
    else if c = '\u200d' then some (0, .joined)
    else none
  | .flag several =>
    if Emoji.isFlagLetter c then some (1, .flag true)
    else if several && c = '\u200d' then some (0, .joined)
    else none
  | .picture => if c = '\u200d' then some (0, .joined) else none
  | .joined =>
    if c = '\u20e3' then some (0, .joinedKeycap)
    else if Emoji.isFlagLetter c then some (1, .joinedFlag 1)
    else if Emoji.isTone c then some (0, .tone)
    else if c.toNat = 0xE007F then some (0, .joinedTag 0 0)
    else if Emoji.pictures.has c then some (0, .picture)
    else none
  | .joinedFlag letters =>
    if Emoji.isFlagLetter c then
      some (if letters % 2 = 0 then 3 else -1, .joinedFlag (letters + 1))
    else if 1 < letters && c = '\u200d' then some (0, .joined)
    else none
  | .joinedTag letters digits =>
    if isTagLetter c && digits = 0 && letters < 6 then some (0, .joinedTag (letters + 1) 0)
    else if isTagDigit c && letters ≤ 4 && digits < 3 then some (0, .joinedTag letters (digits + 1))
    else if c.toNat = 0x1F3F4 && isSpelt letters digits then some (0, .picture)
    else none
  | .vowelE =>
    if c.toNat = 0x16D63 || c.toNat = 0x16D69 then some (0, .nothing)
    else if c.toNat = 0x16D67 then some (0, .vowelAi)
    else if c.toNat = 0x16D68 then some (1, .vowelE)
    else none
  | .vowelAi => if c.toNat = 0x16D63 then some (0, .nothing) else none
  | .alef =>
    if lams.has c then some (0, .nothing)
    else if Width.ofChar c = 0 && !apart.has c then some (0, .alef)
    else none
  | .lamed true => if c = '\u05d0' then some (0, .nothing) else none
  | .orkhonI true => if c.toNat = 0x10C32 then some (0, .nothing) else none
  | .ya true => if c = '\u1a17' then some (0, .vowelYa) else none
  | .vowelYa => if c = '\u1a15' then some (0, .nothing) else none
  | .consonant joined =>
    if c = '\u2d7f' then some (1, .linkedConsonant)
    else if joined && consonants.has c then some (0, .nothing)
    else none
  | .linkedConsonant => if consonants.has c then some (-1, .nothing) else none
  | .toneLetter => if 0xA4F8 ≤ c.toNat && c.toNat ≤ 0xA4FB then some (0, .nothing) else none
  | .footLetter => if c = '\u17d2' then some (-1, .nothing) else none

/-- A character whose columns depend on no sign: it takes up the offer or stands alone. -/
def place (c : Char) (offer : Offer) : Int × After :=
  if offer.lasts && offer != .alef && passed.has c then
    (0, (if c = '\u200d' then offer.join else offer).plain)
  else
    match accept? c offer with
    | some (columns, next) => (columns, next.plain)
    | none => (Width.ofChar c, (offered c).plain)

/-- The columns that one character adds, and what it leaves to the character before it. -/
def step (c : Char) (after : After) : Int × After :=
  let kept := if after.offer.lasts then after.offer else .nothing
  if after.sign = some .picture && Emoji.picturable.has c then
    let isJoined := after.offer = .joined || after.offer = .joinedKeycap
    (if isJoined then 0 else 2, Offer.picture.plain)
  else if c.toNat ≤ 0xA0 then (1, Offer.nothing.plain)
  else if c = '\ufe0f' then
    let next :=
      if after.sign.isNone && (after.offer = .joined || after.offer = .joinedKeycap) then
        after.offer
      else kept
    (0, ⟨next, some .picture⟩)
  else if c = '\ufe0e' then (0, ⟨kept, some .text⟩)
  else if after.sign = some .text && Emoji.narrowable.has c then (1, Offer.nothing.plain)
  else place c (if after.sign.isSome then kept else after.offer)

/-- The columns of a text on one line. -/
def ofString (s : String) : Nat :=
  (s.toList.foldr
    (fun c (sum, after) =>
      let (columns, after) := step c after
      (sum + columns, after))
    ((0 : Int), Offer.nothing.plain)).1.toNat

end ProjectIndex.Columns
