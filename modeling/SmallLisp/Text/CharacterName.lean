/-!
Names of characters. A string may name a character instead of writing it. Which names there are is
for the Unicode database of the host to say, so whatever reads strings takes a table of them. The
names of the control characters are at hand.
-/

namespace SmallLisp

namespace Text

/-- What names of characters are made of. -/
def isNameChar (c : Char) : Bool := c.isAlphanum || c == ' ' || c == '-'

end Text

/-- A table of character names. It is the one part of reading that depends on the host, and an
instance argument keeps it out of the text of every definition between a string and a program. -/
class CharacterNames where
  /-- The character that a name denotes, if the table has the name. -/
  character? : List Char → Option Char
  isNameChar_of_mem {name : List Char} {c : Char} :
    character? name = some c → ∀ d ∈ name, Text.isNameChar d

namespace Text

/-- The names of the control characters, by code point. -/
def controlNames : List (Nat × List String) :=
  [
    (0x00, ["NULL", "NUL"]),
    (0x01, ["START OF HEADING", "SOH"]),
    (0x02, ["START OF TEXT", "STX"]),
    (0x03, ["END OF TEXT", "ETX"]),
    (0x04, ["END OF TRANSMISSION", "EOT"]),
    (0x05, ["ENQUIRY", "ENQ"]),
    (0x06, ["ACKNOWLEDGE", "ACK"]),
    (0x07, ["ALERT", "BEL"]),
    (0x08, ["BACKSPACE", "BS"]),
    (0x09, ["CHARACTER TABULATION", "HORIZONTAL TABULATION", "HT", "TAB"]),
    (0x0A, ["LINE FEED", "NEW LINE", "END OF LINE", "LF", "NL", "EOL"]),
    (0x0B, ["LINE TABULATION", "VERTICAL TABULATION", "VT"]),
    (0x0C, ["FORM FEED", "FF"]),
    (0x0D, ["CARRIAGE RETURN", "CR"]),
    (0x0E, ["SHIFT OUT", "LOCKING-SHIFT ONE", "SO"]),
    (0x0F, ["SHIFT IN", "LOCKING-SHIFT ZERO", "SI"]),
    (0x10, ["DATA LINK ESCAPE", "DLE"]),
    (0x11, ["DEVICE CONTROL ONE", "DC1"]),
    (0x12, ["DEVICE CONTROL TWO", "DC2"]),
    (0x13, ["DEVICE CONTROL THREE", "DC3"]),
    (0x14, ["DEVICE CONTROL FOUR", "DC4"]),
    (0x15, ["NEGATIVE ACKNOWLEDGE", "NAK"]),
    (0x16, ["SYNCHRONOUS IDLE", "SYN"]),
    (0x17, ["END OF TRANSMISSION BLOCK", "ETB"]),
    (0x18, ["CANCEL", "CAN"]),
    (0x19, ["END OF MEDIUM", "EOM"]),
    (0x1A, ["SUBSTITUTE", "SUB"]),
    (0x1B, ["ESCAPE", "ESC"]),
    (0x1C, ["INFORMATION SEPARATOR FOUR", "FILE SEPARATOR", "FS"]),
    (0x1D, ["INFORMATION SEPARATOR THREE", "GROUP SEPARATOR", "GS"]),
    (0x1E, ["INFORMATION SEPARATOR TWO", "RECORD SEPARATOR", "RS"]),
    (0x1F, ["INFORMATION SEPARATOR ONE", "UNIT SEPARATOR", "US"]),
    (0x7F, ["DELETE", "DEL"])
  ]

/-- Whether a name is another one but for the case of its letters. -/
def isNamed (name : List Char) (capitals : String) : Bool :=
  name.map Char.toUpper == capitals.toList

/-- The control character of a name. -/
def control? (name : List Char) : Option Char :=
  (controlNames.find? fun row => row.2.any (isNamed name)).map fun row => Char.ofNat row.1

theorem isNameChar_of_toUpper {c : Char} (h : isNameChar c.toUpper) : isNameChar c := by
  by_cases hlower : c.isLower
  · have halpha : c.isAlpha := Bool.or_eq_true_iff.mpr (.inr hlower)
    have halphanum : c.isAlphanum := Bool.or_eq_true_iff.mpr (.inl halpha)
    simp [isNameChar, halphanum]
  · have hsame : c.toUpper = c := by
      unfold Char.toUpper
      split
      · next hrange =>
        exact absurd (Bool.and_eq_true_iff.mpr (hrange.imp decide_eq_true decide_eq_true)) hlower
      · rfl
    rwa [hsame] at h

theorem isNameChar_of_mem_control? {name : List Char} {c : Char} (h : control? name = some c) :
    ∀ d ∈ name, isNameChar d := by
  have hcapitals : ∀ row ∈ controlNames, ∀ n ∈ row.2, n.toList.all isNameChar := by
    decide +kernel
  intro d hd
  obtain ⟨row, hfind, -⟩ := Option.map_eq_some_iff.mp h
  have hany := List.find?_some hfind
  obtain ⟨n, hn, hnamed⟩ := List.any_eq_true.mp hany
  have hname : name.map Char.toUpper = n.toList := eq_of_beq hnamed
  have hall := hcapitals row (List.mem_of_find?_eq_some hfind) n hn
  rw [← hname, List.all_eq_true] at hall
  exact isNameChar_of_toUpper (hall _ (List.mem_map_of_mem hd))

end Text

instance : CharacterNames where
  character? := Text.control?
  isNameChar_of_mem := Text.isNameChar_of_mem_control?

end SmallLisp
