/-
  Descriptions for Germanic languages other than English.

  Every sample is a description that compiles.
-/
namespace Spellout.Samples

/-- German cardinals. -/
def german : String :=
"%alt-ones:
    null; eins; =%%main=;
%%main:
    null; ein; zwei; drei; vier; fünf; sechs; sieben; acht; neun;
    zehn; elf; zwölf; >>zehn;
    20: [>>und]zwanzig;
    30: [>>und]dreißig;
    40: [>>und]vierzig;
    50: [>>und]fünfzig;
    60: [>>und]sechzig;
    70: [>>und]siebzig;
    80: [>>und]achtzig;
    90: [>>und]neunzig;
    100: hundert[>%alt-ones>];
    200: <<hundert[>%alt-ones>];
    1000: tausend[>%alt-ones>];
    2000: <<tausend[>%alt-ones>];
    1,000,000: eine Million[ >%alt-ones>];
    2,000,000: << Millionen[ >%alt-ones>];
    1,000,000,000: eine Milliarde[ >%alt-ones>];
    2,000,000,000: << Milliarden[ >%alt-ones>];
    1,000,000,000,000: eine Billion[ >%alt-ones>];
    2,000,000,000,000: << Billionen[ >%alt-ones>];
    1,000,000,000,000,000: =#,##0=;
"

/-- Swedish cardinals. -/
def swedish : String :=
"noll; ett; två; tre; fyra; fem; sex; sjo; åtta; nio;
tio; elva; tolv; tretton; fjorton; femton; sexton; sjutton; arton; nitton;
20: tjugo[>>];
30: trettio[>>];
40: fyrtio[>>];
50: femtio[>>];
60: sextio[>>];
70: sjuttio[>>];
80: åttio[>>];
90: nittio[>>];
100: hundra[>>];
200: <<hundra[>>];
1000: tusen[ >>];
2000: << tusen[ >>];
1,000,000: en miljon[ >>];
2,000,000: << miljon[ >>];
1,000,000,000: en miljard[ >>];
2,000,000,000: << miljard[ >>];
1,000,000,000,000: en biljon[ >>];
2,000,000,000,000: << biljon[ >>];
1,000,000,000,000,000: =#,##0=
"

/-- Dutch cardinals. -/
def dutch : String :=
"-x: min >>;
x.x: << komma >>;
(zero?); een; twee; drie; vier; vijf; zes; zeven; acht; negen;
tien; elf; twaalf; dertien; veertien; vijftien; zestien;
zeventien; achtien; negentien;
20: [>> en ]twintig;
30: [>> en ]dertig;
40: [>> en ]veertig;
50: [>> en ]vijftig;
60: [>> en ]zestig;
70: [>> en ]zeventig;
80: [>> en ]tachtig;
90: [>> en ]negentig;
100: << honderd[ >>];
1000: << duizend[ >>];
1,000,000: << miljoen[ >>];
1,000,000,000: << biljoen[ >>];
1,000,000,000,000: =#,##0=
"

end Spellout.Samples
