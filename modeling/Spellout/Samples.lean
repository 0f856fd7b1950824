/-
  Sample descriptions by name.

  * `Samples.table` lists them, `Samples.find?` looks one up.
-/
import Spellout.Samples.Amounts
import Spellout.Samples.English
import Spellout.Samples.Germanic
import Spellout.Samples.Languages
import Spellout.Samples.Numerals
import Spellout.Samples.Romance
import Spellout.Samples.Sentences

namespace Spellout.Samples

/-- Every sample with its name. -/
def table : List (String × String) :=
  [("us-english", usEnglish),
   ("spanish", spanish),
   ("french", french),
   ("german", german),
   ("ordinal-abbreviations", ordinalAbbreviations),
   ("message-1", message1),
   ("dollars-and-cents", dollarsAndCents),
   ("decimal-as-fraction", decimalAsFraction),
   ("closest-fraction", closestFraction),
   ("stock", stock),
   ("abbreviated-english", abbreviatedEnglish),
   ("units", units),
   ("message-2", message2),
   ("dozens", dozens),
   ("duration-in-seconds", durationInSeconds),
   ("duration-in-hours", durationInHours),
   ("pounds-shillings-and-pence", poundsShillingsAndPence),
   ("arabic-numerals", arabicNumerals),
   ("words-for-digits", wordsForDigits),
   ("roman-numerals", romanNumerals),
   ("uk-english", ukEnglish),
   ("swiss-french", swissFrench),
   ("italian", italian),
   ("swedish", swedish),
   ("dutch", dutch),
   ("japanese", japanese),
   ("greek", greek),
   ("russian", russian),
   ("hebrew", hebrew),
   ("chinese-place-value", chinesePlaceValue),
   ("hebrew-alphabetic", hebrewAlphabetic),
   ("greek-alphabetic", greekAlphabetic)]

/-- The sample of a name. -/
def find? (name : String) : Option String := table.lookup name

end Spellout.Samples
