/-
  Descriptions for Romance languages.

  Every sample is a description that compiles.
-/
namespace Spellout.Samples

/-- Spanish cardinals. -/
def spanish : String :=
"-x: menos >>;
x.x: << punto >>;
cero; uno; dos; tres; cuatro; cinco; seis; siete; ocho; nueve;
diez; once; doce; trece; catorce; quince; dieciséis;
    diecisiete; dieciocho; diecinueve;
veinte; veintiuno; veintidós; veintitrés; veinticuatro;
    veinticinco; veintiséis; veintisiete; veintiocho;
    veintinueve;
30: treinta[ y >>];
40: cuarenta[ y >>];
50: cincuenta[ y >>];
60: sesenta[ y >>];
70: setenta[ y >>];
80: ochenta[ y >>];
90: noventa[ y >>];
100: cien;
101: ciento >>;
200: doscientos[ >>];
300: trescientos[ >>];
400: cuatrocientos[ >>];
500: quinientos[ >>];
600: seiscientos[ >>];
700: setecientos[ >>];
800: ochocientos[ >>];
900: novecientos[ >>];
1000: mil[ >>];
2000: << mil[ >>];
1,000,000: un millón[ >>];
2,000,000: << millón[ >>];
1,000,000,000: =#,##0= (incomplete data);
"

/-- French cardinals. -/
def french : String :=
"%main:
    -x: moins >>;
    x.x: << virgule >>;
    zéro; un; deux; trois; quatre; cinq; six; sept; huit; neuf;
    dix; onze; douze; treize; quatorze; quinze; seize;
        dix-sept; dix-huit; dix-neuf;
    20: vingt[->%%alt-ones>];
    30: trente[->%%alt-ones>];
    40: quarante[->%%alt-ones>];
    50: cinquante[->%%alt-ones>];
    // 60 to 79 count by twenties
    60/20: soixante[->%%alt-ones>];
    71: soixante et onze;
    72/20: soixante->%%alt-ones>;
    80: quatre-vingts; 81/20: quatre-vingt->>;
    100: cent[ >>];
    200: << cents[ >>];
    1000: mille[ >>];
    1100>: onze cents[ >>];
    1200: mille >>;
    2000: << mille[ >>];
    1,000,000: << million[ >>];
    1,000,000,000: << milliarde[ >>];
    1,000,000,000,000: << billion[ >>];
    1,000,000,000,000,000: =#,##0=;
%%alt-ones:
    ; et-un; =%main=;
"

/-- French cardinals as in Switzerland, without counting by twenties. -/
def swissFrench : String :=
"%main:
    -x: moins >>;
    x.x: << virgule >>;
    zéro; un; deux; trois; quatre; cinq; six; sept; huit; neuf;
    dix; onze; douze; treize; quatorze; quinze; seize;
        dix-sept; dix-huit; dix-neuf;
    20: vingt[->%%alt-ones>];
    30: trente[->%%alt-ones>];
    40: quarante[->%%alt-ones>];
    50: cinquante[->%%alt-ones>];
    60: soixante[->%%alt-ones>];
    70: septante[->%%alt-ones>];
    80: octante[->%%alt-ones>];
    90: nonante[->%%alt-ones>];
    100: cent[ >>];
    200: << cents[ >>];
    1000: mille[ >>];
    1100>: onze cents[ >>];
    1200: mille >>;
    2000: << mille[ >>];
    1,000,000: << million[ >>];
    1,000,000,000: << milliarde[ >>];
    1,000,000,000,000: << billion[ >>];
    1,000,000,000,000,000: =#,##0=;
%%alt-ones:
    ; et-un; =%main=;
"

/-- Italian cardinals, with the vowels that fall together. -/
def italian : String :=
"%main:
    -x: meno >>;
    x.x: << virgola >>;
    zero; uno; due; tre; quattro; cinque; sei; sette; otto;
        nove;
    dieci; undici; dodici; tredici; quattordici; quindici; sedici;
        diciasette; diciotto; diciannove;
    20: venti; vent>%%with-i>;
    30: trenta; trent>%%with-i>;
    40: quaranta; quarant>%%with-a>;
    50: cinquanta; cinquant>%%with-a>;
    60: sessanta; sessant>%%with-a>;
    70: settanta; settant>%%with-a>;
    80: ottanta; ottant>%%with-a>;
    90: novanta; novant>%%with-a>;
    100: cento; cent[>%%with-o>];
    200: <<cento; <<cent[>%%with-o>];
    1000: mille; mill[>%%with-i>];
    2000: <<mila; <<mil[>%%with-a>];
    100,000>>: <<mila[ >>];
    1,000,000: =#,##0= (incomplete data);
%%with-a:
    azero; uno; adue; atre; aquattro; acinque; asei; asette; otto;
        anove;
    adieci; undici; adodici; atredici; aquattordici; aquindici; asedici;
        adiciasette; adiciotto; adiciannove;
    20: aventi; avent>%%with-i>;
    30: atrenta; atrent>%%with-i>;
    40: aquaranta; aquarant>%%with-a>;
    50: acinquanta; acinquant>%%with-a>;
    60: asessanta; asessant>%%with-a>;
    70: asettanta; asettant>%%with-a>;
    80: ottanta; ottant>%%with-a>;
    90: anovanta; anovant>%%with-a>;
    100: acento; acent[>%%with-o>];
    200: <%%with-a<cento; <%%with-a<cent[>%%with-o>];
    1000: amille; amill[>%%with-i>];
    2000: <%%with-a<mila; <%%with-a<mil[>%%with-a>];
    100,000: =%main=;
%%with-i:
    izero; uno; idue; itre; iquattro; icinque; isei; isette; otto;
        inove;
    idieci; undici; idodici; itredici; iquattordici; iquindici; isedici;
        idiciasette; idiciotto; idiciannove;
    20: iventi; ivent>%%with-i>;
    30: itrenta; itrent>%%with-i>;
    40: iquaranta; iquarant>%%with-a>;
    50: icinquanta; icinquant>%%with-a>;
    60: isessanta; isessant>%%with-a>;
    70: isettanta; isettant>%%with-a>;
    80: ottanta; ottant>%%with-a>;
    90: inovanta; inovant>%%with-a>;
    100: icento; icent[>%%with-o>];
    200: <%%with-i<cento; <%%with-i<cent[>%%with-o>];
    1000: imille; imill[>%%with-i>];
    2000: <%%with-i<mila; <%%with-i<mil[>%%with-a>];
    100,000: =%main=;
%%with-o:
    ozero; uno; odue; otre; oquattro; ocinque; osei; osette; otto;
        onove;
    odieci; undici; ododici; otredici; oquattordici; oquindici; osedici;
        odiciasette; odiciotto; odiciannove;
    20: oventi; ovent>%%with-i>;
    30: otrenta; otrent>%%with-i>;
    40: oquaranta; oquarant>%%with-a>;
    50: ocinquanta; ocinquant>%%with-a>;
    60: osessanta; osessant>%%with-a>;
    70: osettanta; osettant>%%with-a>;
    80: ottanta; ottant>%%with-a>;
    90: onovanta; onovant>%%with-a>;
    100: ocento; ocent[>%%with-o>];
    200: <%%with-o<cento; <%%with-o<cent[>%%with-o>];
    1000: omille; omill[>%%with-i>];
    2000: <%%with-o<mila; <%%with-o<mil[>%%with-a>];
    100,000: =%main=;
"

end Spellout.Samples
