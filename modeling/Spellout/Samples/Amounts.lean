/-
  Descriptions for amounts: money, prices, fractions, units and dozens.

  Every sample is a description that compiles.
-/
namespace Spellout.Samples

/-- Dollars, with cents or hundredths. -/
def dollarsAndCents : String :=
"%dollars-and-cents:
    x.0: << [and >%%cents>];
    0.x: >%%cents>;
    0: zero dollars; one dollar; =%%main= dollars;
%%main:
    zero; one; two; three; four; five; six; seven; eight; nine;
    ten; eleven; twelve; thirteen; fourteen; fifteen; sixteen;
        seventeen; eighteen; nineteen;
    20: twenty[->>];
    30: thirty[->>];
    40: forty[->>];
    50: fifty[->>];
    60: sixty[->>];
    70: seventy[->>];
    80: eighty[->>];
    90: ninety[->>];
    100: << hundred[ >>];
    1000: << thousand[ >>];
    1,000,000: << million[ >>];
    1,000,000,000: << billion[ >>];
    1,000,000,000,000: << trillion[ >>];
    1,000,000,000,000,000: =#,##0=;
%%cents:
    100: <%%main< cent[s];
%dollars-and-hundredths:
    x.0: <%%main< and >%%hundredths>/100 dollars;
%%hundredths:
    100: <00<;
"

/-- Decimal fractions in words. -/
def decimalAsFraction : String :=
"%main:
    -x: minus >>;
    x.x: [<< and ]>%%frac>;
    zero; one; two; three; four; five; six; seven; eight; nine;
    ten; eleven; twelve; thirteen; fourteen; fifteen; sixteen;
        seventeen; eighteen; nineteen;
    twenty[->>];
    30: thirty[->>];
    40: forty[->>];
    50: fifty[->>];
    60: sixty[->>];
    70: seventy[->>];
    80: eighty[->>];
    90: ninety[->>];
    100: << hundred[ >>];
    1000: << thousand[ >>];
    1,000,000: << million[ >>];
    1,000,000,000: << billion[ >>];
    1,000,000,000,000: << trillion[ >>];
    1,000,000,000,000,000: =#,##0=;
%%frac:
    10: << tenth[s];
    100: << hundredth[s];
    1000: << thousandth[s];
    10,000: << ten-thousandth[s];
    100,000: << hundred-thousandth[s];
    1,000,000: << millionth[s];
"

/-- The nearest fraction with a small denominator. -/
def closestFraction : String :=
"%main:
    x.0: <#,##0<[ >%%frac>];
    0.x: >%%frac>;
%%frac:
    2: 1/2;
    3: <0</3;
    4: <0</4;
    5: <0</5;
    6: <0</6;
    7: <0</7;
    8: <0</8;
    9: <0</9;
    10: <0</10;
"

/-- Prices in quarters, eighths, and so on. -/
def stock : String :=
"%main:
    x.0: <#,##0<[>%%frac1>];
    0.x: >%%frac2>;
%%frac1:
    4: <%%quarters<;
    8: ' <0</8;
    16: ' <0</16;
    32: ' <0</32;
    100: .<00<;
%%frac2:
    4: <%%quarters<;
    8: <0</8;
    16: <0</16;
    32: <0</32;
    100: 0.<00<;
%%quarters:
    ; ¼; ½; ¾;
%%lenient-parse:
    & '1/4' , ¼
    & '1/2' , ½
    & '3/4' , ¾
;
"

/-- Large numbers in millions, billions and trillions. -/
def abbreviatedEnglish : String :=
"=#,##0=;
1,000,000: <##0.###< million;
1,000,000,000: <##0.###< billion;
1,000,000,000,000: <##0.###< trillion;
"

/-- Lengths in metres, with the prefixes of the metric system. -/
def units : String :=
"%main:
    0.x: >%%small>;
    0: =##0.###= m;
    1,000: <##0.###< km;
    1,000,000: <##0.###< Mm;
    1,000,000,000: <##0.###< Gm;
    1,000,000,000,000: <#,##0.###< Tm;
%%small:
    1,000,000,000,000: <%%small2<;
%%small2:
    0: =##0= pm;
    1,000: <##0.###< nm;
    1,000,000: <##0.###< µm;
    1,000,000,000: <##0.###< mm;
"

/-- Dozens and grosses. -/
def dozens : String :=
"zero; one; two; three; four; five; six;
seven; eight; nine; ten; eleven;
12/12: << dozen[ and >>];
144/12: << gross[, >>];
1000: << thousand[, >>];
10,000: =#,##0=;
"

/-- Pounds, shillings and pence. -/
def poundsShillingsAndPence : String :=
"%main:
    x.0: £<#,##0<[ >%%shillings-and-pence>];
    0.x: >%%pence-alone>;
%%shillings-and-pence:
    240: <%%shillings-and-pence-implementation<;
%%pence-alone:
    240: <%%pence-alone-implementation<;
%%shillings-and-pence-implementation:
    0/; 0/=0=;
    12/12: <0</[>0>];
%%pence-alone-implementation:
    =0= d.;
    12/12: <0</[>0>];
"

end Spellout.Samples
