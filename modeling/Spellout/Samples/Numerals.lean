/-
  Descriptions for ways to write numbers: ordinal endings, positional digits, letters.

  Every sample is a description that compiles.
-/
namespace Spellout.Samples

/-- Digits with the ending of an English ordinal. -/
def ordinalAbbreviations : String :=
"%main:
    =#,##0==%%abbrev=;
%%abbrev:
    th; st; nd; rd; th;
    20: >>;
    100: >>;
"

/-- Digits, built from rules. -/
def arabicNumerals : String :=
"0; 1; 2; 3; 4; 5; 6; 7; 8; 9;
10: <<>>;
100: <<>>>;
1000: <<,>>>;
1,000,000: <<,>>>;
1,000,000,000: <<,>>>;
1,000,000,000,000: <<,>>>;
1,000,000,000,000,000: =#,##0=;
-x: ->>;
x.x: <<.>>;
"

/-- The digits of a number, each as a word. -/
def wordsForDigits : String :=
"-x: minus >>;
x.x: << point >>;
zero; one; two; three; four; five; six;
    seven; eight; nine;
10: << >>;
100: << >>>;
1000: <<, >>>;
1,000,000: <<, >>>;
1,000,000,000: <<, >>>;
1,000,000,000,000: <<, >>>;
1,000,000,000,000,000: =#,##0=;
"

/-- Roman numerals, with the historical signs for thousands and without. -/
def romanNumerals : String :=
"%historical:
    =%modern=;
    // in early times, Roman numerals above 1,000 used these symbols
    1000: ↀ[>>]; 2000: ↀↀ[>>]; 3000: ↀↀↀ[>>]; 4000: ↀↁ[>>];
    5000: ↁ[>>]; 6000: ↁↀ[>>]; 7000: ↁↀↀ[>>];
    8000: ↁↀↀↀ[>>]; 9000: ↀↂ[>>];
    10,000: ↂ[>>]; 20,000: ↂↂ[>>]; 30,000: ↂↂↂ[>>];
    40,000: =#,##0=;
%modern:
    ; I; II; III; IV; V; VI; VII; VIII; IX;
    10: X[>>]; 20: XX[>>]; 30: XXX[>>]; 40: XL[>>]; 50: L[>>];
    60: LX[>>]; 70: LXX[>>]; 80: LXXX[>>]; 90: XC[>>];
    100: C[>>]; 200: CC[>>]; 300: CCC[>>]; 400: CD[>>]; 500: D[>>];
    600: DC[>>]; 700: DCC[>>]; 800: DCCC[>>]; 900: CM[>>];
    1000: M[>>]; 2000: MM[>>]; 3000: MMM[>>];
    4000: =#,##0=;
"

/-- Chinese digits in positional notation. -/
def chinesePlaceValue : String :=
"〇; 一; 二; 三; 四; 五; 六; 七; 八; 九;
10: <<>>;
100: <<>>>;
1000: <<>>>;
1,000,000: <<>>>;
1,000,000,000: <<>>>;
1,000,000,000,000: <<>>>;
1,000,000,000,000,000: =#,##0=;
"

/-- Hebrew letters as numerals. -/
def hebrewAlphabetic : String :=
"%%ones:
    (no zero); א; ב; ג; ד; ה; ו; ז; ח; ט;
%%tens:
    ; י; כ; ל; מ; נ; ס; ע; פ; צ;
%%hundreds:
    ; ק; ר; ש; ת;
%%tens-and-ones:
    =%%ones=′;
    10: <%%tens<′; <%%tens<″>%%ones>;
    15: ט″ו; 16: ט″ז;
    17: <%%tens<″>%%ones>;
    20: <%%tens<′; <%%tens<″>%%ones>;
%%low-order:
    ″=%%ones=;
    10: ″<%%tens<; =%%tens-and-ones=>%%null>;
    100: <%%hundreds<′; <%%hundreds<>>;
    500: ת″ק; תק>>;
    600: ת″ר; תר>>;
    700: ת″ש; תש>>;
    800: ת″ת; תת>>;
    900: תת″ק; תתק>>;
%%high-order:
    =%%ones=̈;
    10: <%%tens<̈[>>];
    15: ט̈ו̈; 16: ט̈ז̈;
    17: <%%tens<̈[>>];
    100: <%%hundreds<̈[>>];
    500: ת̈ק̈[>>];
    600: ת̈ר̈[>>];
    700: ת̈ש̈[>>];
    800: ת̈ת̈[>>];
    900: ת̈ת̈ק̈[>>];
%%null:
    ;
%main:
    =%%ones=′;
    10: =%%tens-and-ones=;
    100: =%%low-order=;
    1000: <%%high-order<[>%%low-order>];
"

/-- Greek letters as numerals. -/
def greekAlphabetic : String :=
"%%low-order:
    (no zero); Α; Β; Γ; Δ; Ε; Ϝ; Ζ; Η; Θ;
    10: Ι[>>]; 20: Κ[>>]; 30: Λ[>>]; 40: Μ[>>]; 50: Ν[>>];
    60: Ξ[>>]; 70: Ο[>>]; 80: Π[>>]; 90: Ϟ[>>];
    100: Ρ[>>]; 200: Σ[>>]; 300: Τ[>>]; 400: Υ[>>];
    500: Φ[>>]; 600: Χ[>>]; 700: Ψ[>>]; 800: Ω[>>];
    900: Ϡ[>>];
    1000: Ἀ[>>]; 2000: Β̓[>>]; 3000: Γ̓[>>];
    4000: Δ̓[>>]; 5000: Ἐ[>>]; 6000: Ϝ̓[>>];
    7000: Ζ̓[>>]; 8000: Ἠ[>>]; 9000: Θ̓[>>];
%%high-order:
    (no zero); α; β; γ; δ; ε; Ϝ; ζ; η; θ;
    10: ι[>>]; 20: κ[>>]; 30: λ[>>]; 40: μ[>>]; 50: ν[>>];
    60: ξ[>>]; 70: ο[>>]; 80: π[>>]; 90: Ϟ[>>];
    100: ρ[>>]; 200: σ[>>]; 300: τ[>>]; 400: υ[>>];
    500: φ[>>]; 600: χ[>>]; 700: ψ[>>]; 800: ω[>>];
    900: π[>>];
    1000: ἀ[>>]; 2000: β̓[>>]; 3000: γ̓[>>];
    4000: δ̓[>>]; 5000: ἐ[>>]; 6000: Ϝ̓[>>];
    7000: ζ̓[>>]; 8000: ἠ[>>]; 9000: θ̓[>>];
%main:
    =%%low-order=;
    10,000: <%%high-order<Μ>%%high-order>;
    100,000,000: <%%high-order<Μ>>;
"

end Spellout.Samples
