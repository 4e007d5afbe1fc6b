/-!
Lines of a text or of raw bytes. A line ends at a line feed; one carriage return
right before the feed belongs to the ending. What follows the last feed is a
line of its own unless it is empty.
-/

namespace ChomskyChart.Text

variable {α : Type} [DecidableEq α]

/-- A line that stood before a line feed, without the carriage return of its
ending. -/
def withoutReturn (carriage : α) (line : List α) : List α :=
  if line.getLast? = some carriage then line.dropLast else line

def linesAt (feed carriage : α) (text : List α) : List (List α) :=
  let pieces := text.splitOn feed
  pieces.dropLast.map (withoutReturn carriage) ++
    pieces.getLast?.toList.filter fun piece => !piece.isEmpty

def lines (text : List Char) : List (List Char) :=
  linesAt '\n' '\r' text

def byteLines (bytes : List UInt8) : List (List UInt8) :=
  linesAt 10 13 bytes

def decode? (bytes : List UInt8) : Option (List Char) :=
  (String.fromUTF8? ⟨bytes.toArray⟩).map String.toList

def unlines (texts : List String) : String :=
  String.join (texts.map (· ++ "\n"))

example : lines "S\r\n\na\r".toList = ["S".toList, [], "a\r".toList] := by decide

example : lines "a\r\r\n".toList = ["a\r".toList] := by decide

@[simp] theorem linesAt_nil (feed carriage : α) :
    linesAt feed carriage [] = [] := by
  simp [linesAt]

/-- Reading bytes as UTF-8 undoes writing characters in it, and nothing else can
be read. -/
theorem decode?_eq_some_iff {bytes : List UInt8} {text : List Char} :
    decode? bytes = some text ↔ bytes = text.utf8Encode.data.toList := by
  rw [decode?, Option.map_eq_some_iff]
  constructor
  · rintro ⟨decoded, hdecoded, rfl⟩
    unfold String.fromUTF8? at hdecoded
    split at hdecoded
    · cases hdecoded
      simp [String.fromUTF8]
    · cases hdecoded
  · rintro rfl
    refine ⟨.ofList text, ?_, String.toList_ofList⟩
    exact dif_pos ⟨text, rfl⟩

end ChomskyChart.Text
