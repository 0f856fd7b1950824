/-
  Descriptions for languages of other families.

  Every sample is a description that compiles.
-/
namespace Spellout.Samples

/-- Japanese numerals, financial and traditional. -/
def japanese : String :=
"%financial:
    零; 壱; 弐; 参; 四; 伍; 六; 七; 八; 九;
    拾[>>];
    20: <<拾[>>];
    100: <<百[>>];
    1000: <<千[>>];
    10,000: <<万[>>];
    100,000,000: <<億[>>];
    1,000,000,000,000: <<兆[>>];
    10,000,000,000,000,000: =#,##0=;
%traditional:
    零; 一; 二; 三; 四; 五; 六; 七; 八; 九;
    十[>>];
    20: <<十[>>];
    100: <<百[>>];
    1000: <<千[>>];
    10,000: <<万[>>];
    100,000,000: <<億[>>];
    1,000,000,000,000: <<兆[>>];
    10,000,000,000,000,000: =#,##0=;
"

/-- Greek cardinals. -/
def greek : String :=
"zero (incomplete data); ένα; δύο; δρία; τέσσερα; πέντε; έξι; επτά; οκτώ; εννέα;
10: δέκα; ένδεκα; δώδεκα; δεκα>>;
20: είκοσι; εικοσι>>;
30: τριάντα; τριαντα>>;
40: σαράντα; σαραντα>>;
50: πενήντα; πενηντα>>;
60: εξήντα; εξηντα>>;
70: εβδομήντα; εβδομηντα>>;
80: ογδόντα; ογδοντα>>;
90: εννενήντα; εννενηντα>>;
100: εκατό[ν >>];
200: διακόσια[ >>];
300: τριακόσια[ >>];
400: τετρακόσια[ >>];
500: πεντακόσια[ >>];
600: εξακόσια[ >>];
700: επτακόσια[ >>];
800: οκτακόσια[ >>];
900: εννιακόσια[ >>];
1000: χίλια[ >>];
2000: << χίλια[ >>];
1,000,000: << εκατομμιόριο[ >>];
1,000,000,000: << δισεκατομμιόριο[ >>];
1,000,000,000,000: =#,##0=
"

/-- Russian cardinals. -/
def russian : String :=
"ноль; один; два; три; четыре; пят; шест; семь; восемь; девят;
10: десят; одиннадцать;
двеннадцать; тринадцать; четырнадцать;
15: пятнадцать; шестнадцать; семнадцать; восемнадцать; девятнадцать;
20: двадцать[ >>];
30: трлдцать[ >>];
40: сорок[ >>];
50: пятьдесят[ >>];
60: шестьдесят[ >>];
70: семьдесят[ >>];
80: восемьдесят[ >>];
90: девяносто[ >>];
100: сто[ >>];
200: << сто[ >>];
1000: тысяча[ >>];
2000: << тысяча[ >>];
1,000,000: миллион[ >>];
2,000,000: << миллион[ >>];
1,000,000,000: =#,##0=;
"

/-- Hebrew cardinals. -/
def hebrew : String :=
"zero (incomplete data); אהד; שגיים; שלושה;
4: אדבצה; חגוישה; ששה;
7: שבצה; שמוגה; תשצה;
10: צשדה[ >>];
20: צשדים[ >>];
30: שלושים[ >>];
40: אדבצים[ >>];
50: חמישים[ >>];
60: ששים[ >>];
70: שבצים[ >>];
80: שמוגים[ >>];
90: תשצים[ >>];
100: מאה[ >>];
200: << מאה[ >>];
1000: אלף[ >>];
2000: << אלף[ >>];
1,000,000: =#,##0= (incomplete data);
"

end Spellout.Samples
