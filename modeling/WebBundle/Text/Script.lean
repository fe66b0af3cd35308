import WebBundle.Text.Runs

/-!
# Scripts

The script of every character, as a code of four letters such as `Latn` or `Grek`. The table lists
the scripts of all code points in order.
-/

namespace WebBundle.Text

def scriptRuns : List String :=
  ["Zyyy65Latn26Zyyy6Latn26Zyyy47LatnZyyy15LatnZyyy5Latn23ZyyyLatn31ZyyyLatn449Zyyy39Latn5",
   "Zyyy5Bopo2Zyyy20Zinh112Grek4ZyyyGrek3Zzzz2Grek4ZyyyGrekZzzz4GrekZyyyGrekZyyyGrek3ZzzzGrek",
   "ZzzzGrek20ZzzzGrek63Copt14Grek16Cyrl133Zinh2Cyrl169ZzzzArmn38Zzzz2Armn50Zzzz2Armn3Zzzz",
   "Hebr55Zzzz8Hebr27Zzzz4Hebr6Zzzz11Arab5ZyyyArab6ZyyyArab14ZyyyArab3ZyyyArab32ZyyyArab10",
   "Zinh11Arab26ZinhArab108ZyyyArab34Syrc14ZzzzSyrc60Zzzz2Syrc3Arab48Thaa50Zzzz14Nkoo59Zzzz2",
   "Nkoo3Samr46Zzzz2Samr15ZzzzMand28Zzzz2MandZzzzSyrc11Zzzz5Arab31ZzzzArab2Zzzz6Arab74Zyyy",
   "Arab29Deva81Zinh4Deva15Zyyy2Deva26Beng4ZzzzBeng8Zzzz2Beng2Zzzz2Beng22ZzzzBeng7ZzzzBeng",
   "Zzzz3Beng4Zzzz2Beng9Zzzz2Beng2Zzzz2Beng4Zzzz8BengZzzz4Beng2ZzzzBeng5Zzzz2Beng25Zzzz2Guru3",
   "ZzzzGuru6Zzzz4Guru2Zzzz2Guru22ZzzzGuru7ZzzzGuru2ZzzzGuru2ZzzzGuru2Zzzz2GuruZzzzGuru5Zzzz4",
   "Guru2Zzzz2Guru3Zzzz3GuruZzzz7Guru4ZzzzGuruZzzz7Guru17Zzzz10Gujr3ZzzzGujr9ZzzzGujr3Zzzz",
   "Gujr22ZzzzGujr7ZzzzGujr2ZzzzGujr5Zzzz2Gujr10ZzzzGujr3ZzzzGujr3Zzzz2GujrZzzz15Gujr4Zzzz2",
   "Gujr12Zzzz7Gujr7ZzzzOrya3ZzzzOrya8Zzzz2Orya2Zzzz2Orya22ZzzzOrya7ZzzzOrya2ZzzzOrya5Zzzz2",
   "Orya9Zzzz2Orya2Zzzz2Orya3Zzzz7Orya3Zzzz4Orya2ZzzzOrya5Zzzz2Orya18Zzzz10Taml2ZzzzTaml6Zzzz3",
   "Taml3ZzzzTaml4Zzzz3Taml2ZzzzTamlZzzzTaml2Zzzz3Taml2Zzzz3Taml3Zzzz3Taml12Zzzz4Taml5Zzzz3",
   "Taml3ZzzzTaml4Zzzz2TamlZzzz6TamlZzzz14Taml21Zzzz5Telu13ZzzzTelu3ZzzzTelu23ZzzzTelu16Zzzz2",
   "Telu9ZzzzTelu3ZzzzTelu4Zzzz7Telu2ZzzzTelu3Zzzz2TeluZzzz2Telu4Zzzz2Telu10Zzzz7Telu9Knda13",
   "ZzzzKnda3ZzzzKnda23ZzzzKnda10ZzzzKnda5Zzzz2Knda9ZzzzKnda3ZzzzKnda4Zzzz7Knda2Zzzz6Knda2Zzzz",
   "Knda4Zzzz2Knda10ZzzzKnda3Zzzz12Mlym13ZzzzMlym3ZzzzMlym51ZzzzMlym3ZzzzMlym6Zzzz4Mlym16Zzzz2",
   "Mlym26ZzzzSinh3ZzzzSinh18Zzzz3Sinh24ZzzzSinh9ZzzzSinhZzzz2Sinh7Zzzz3SinhZzzz4Sinh6ZzzzSinh",
   "ZzzzSinh8Zzzz6Sinh10Zzzz2Sinh3Zzzz12Thai58Zzzz4ZyyyThai28Zzzz37Laoo2ZzzzLaooZzzzLaoo5Zzzz",
   "Laoo24ZzzzLaooZzzzLaoo23Zzzz2Laoo5ZzzzLaooZzzzLaoo7ZzzzLaoo10Zzzz2Laoo4Zzzz32Tibt72Zzzz",
   "Tibt36Zzzz4Tibt39ZzzzTibt36ZzzzTibt15ZzzzTibt7Zyyy4Tibt2Zzzz37Mymr160Geor38ZzzzGeorZzzz5",
   "GeorZzzz2Geor43ZyyyGeor4Hang256Ethi73ZzzzEthi4Zzzz2Ethi7ZzzzEthiZzzzEthi4Zzzz2Ethi41Zzzz",
   "Ethi4Zzzz2Ethi33ZzzzEthi4Zzzz2Ethi7ZzzzEthiZzzzEthi4Zzzz2Ethi15ZzzzEthi57ZzzzEthi4Zzzz2",
   "Ethi67Zzzz2Ethi32Zzzz3Ethi26Zzzz6Cher86Zzzz2Cher6Zzzz2Cans640Ogam29Zzzz3Runr75Zyyy3Runr11",
   "Zzzz7Tglg22Zzzz9TglgHano21Zyyy2Zzzz9Buhd20Zzzz12Tagb13ZzzzTagb3ZzzzTagb2Zzzz12Khmr94Zzzz2",
   "Khmr10Zzzz6Khmr10Zzzz6Mong2Zyyy2MongZyyyMong20Zzzz6Mong89Zzzz7Mong43Zzzz5Cans70Zzzz10",
   "Limb31ZzzzLimb12Zzzz4Limb12Zzzz4LimbZzzz3Limb12Tale30Zzzz2Tale5Zzzz11Talu44Zzzz4Talu26",
   "Zzzz6Talu11Zzzz3Talu2Khmr32Bugi28Zzzz2Bugi2Lana63ZzzzLana29Zzzz2Lana11Zzzz6Lana10Zzzz6",
   "Lana14Zzzz2Zinh31Zzzz49Bali77Zzzz3Bali47ZzzzSund64Batk52Zzzz8Batk4Lepc56Zzzz3Lepc15Zzzz3",
   "Lepc3Olck48Cyrl9Zzzz7Geor43Zzzz2Geor3Sund8Zzzz8Zinh3ZyyyZinh13ZyyyZinh7Zyyy4ZinhZyyy6Zinh",
   "Zyyy3Zinh2ZyyyZzzz5Latn38Grek5CyrlLatn49Grek5Latn4Grek5Latn13CyrlLatn70GrekZinh64Latn256",
   "Grek22Zzzz2Grek6Zzzz2Grek38Zzzz2Grek6Zzzz2Grek8ZzzzGrekZzzzGrekZzzzGrekZzzzGrek31Zzzz2",
   "Grek53ZzzzGrek15ZzzzGrek14Zzzz2Grek6ZzzzGrek19Zzzz2Grek3ZzzzGrek9ZzzzZyyy12Zinh2Zyyy87Zzzz",
   "Zyyy11LatnZzzz2Zyyy11LatnZyyy15ZzzzLatn13Zzzz3Zyyy33Zzzz15Zinh33Zzzz15Zyyy38GrekZyyy3Latn2",
   "Zyyy6LatnZyyy27LatnZyyy17Latn41Zyyy3Zzzz4Zyyy663Zzzz25Zyyy11Zzzz21Zyyy928Brai256Zyyy628",
   "Zzzz2Zyyy32ZzzzZyyy105Glag96Latn32Copt116Zzzz5Copt7Geor38ZzzzGeorZzzz5GeorZzzz2Tfng56Zzzz7",
   "Tfng2Zzzz14TfngEthi23Zzzz9Ethi7ZzzzEthi7ZzzzEthi7ZzzzEthi7ZzzzEthi7ZzzzEthi7ZzzzEthi7Zzzz",
   "Ethi7ZzzzCyrl32Zyyy94Zzzz34Hani26ZzzzHani89Zzzz12Hani214Zzzz26Zyyy12Zzzz4Zyyy5HaniZyyyHani",
   "Zyyy25Hani9Zinh4Hang2Zyyy8Hani4Zyyy4ZzzzHira86Zzzz2Zinh2Zyyy2Hira3ZyyyKana90Zyyy2Kana3",
   "Zzzz5Bopo43ZzzzHang94ZzzzZyyy16Bopo32Zyyy36Zzzz12Kana16Hang31ZzzzZyyy64Hang31Zyyy81Kana47",
   "ZyyyKana88Zyyy168Hani6592Zyyy64Hani20992Yiii1165Zzzz3Yiii55Zzzz9Lisu48Vaii300Zzzz20Cyrl96",
   "Bamu88Zzzz8Zyyy34Latn102Zyyy3Latn64Zzzz5Latn2ZzzzLatnZzzzLatn5Zzzz24Latn14Sylo45Zzzz3",
   "Zyyy10Zzzz6Phag56Zzzz8Saur70Zzzz8Saur12Zzzz6Deva32Kali46ZyyyKaliRjng36Zzzz11RjngHang29",
   "Zzzz3Java78ZzzzZyyyJava10Zzzz4Java2Mymr31ZzzzCham55Zzzz9Cham14Zzzz2Cham10Zzzz2Cham4Mymr32",
   "Tavt67Zzzz24Tavt5Mtei23Zzzz10Ethi6Zzzz2Ethi6Zzzz2Ethi6Zzzz9Ethi7ZzzzEthi7ZzzzLatn43Zyyy",
   "Latn9GrekLatn4Zyyy2Zzzz4Cher80Mtei46Zzzz2Mtei10Zzzz6Hang11172Zzzz12Hang23Zzzz4Hang49",
   "Zzzz8452Hani366Zzzz2Hani106Zzzz38Latn7Zzzz12Armn5Zzzz5Hebr26ZzzzHebr5ZzzzHebrZzzzHebr2Zzzz",
   "Hebr2ZzzzHebr10Arab115Zzzz16Arab363Zyyy2Arab80Zzzz2Arab54Zzzz7ArabZzzz32Arab16Zinh16Zyyy10",
   "Zzzz6Zinh14Cyrl2Zyyy35ZzzzZyyy19ZzzzZyyy4Zzzz4Arab5ZzzzArab135Zzzz2ZyyyZzzzZyyy32Latn26",
   "Zyyy6Latn26Zyyy11Kana10ZyyyKana45Zyyy2Hang31Zzzz3Hang6Zzzz2Hang6Zzzz2Hang6Zzzz2Hang3Zzzz3",
   "Zyyy7ZzzzZyyy7Zzzz10Zyyy5Zzzz2Linb12ZzzzLinb26ZzzzLinb19ZzzzLinb2ZzzzLinb15Zzzz2Linb14",
   "Zzzz34Linb123Zzzz5Zyyy3Zzzz4Zyyy45Zzzz3Zyyy9Grek79ZzzzZyyy13Zzzz3GrekZzzz47Zyyy45Zinh",
   "Zzzz130Lyci29Zzzz3Cari49Zzzz15ZinhZyyy27Zzzz4Ital36Zzzz9Ital3Goth27Zzzz5Perm43Zzzz5Ugar30",
   "ZzzzUgarXpeo36Zzzz4Xpeo14Zzzz42Dsrt80Shaw48Osma30Zzzz2Osma10Zzzz6Osge36Zzzz4Osge36Zzzz4",
   "Elba40Zzzz8Aghb52Zzzz11AghbVith11ZzzzVith15ZzzzVith7ZzzzVith2ZzzzVith11ZzzzVith15ZzzzVith7",
   "ZzzzVith2Zzzz67Lina311Zzzz9Lina22Zzzz10Lina8Zzzz24Latn6ZzzzLatn42ZzzzLatn9Zzzz69Cprt6Zzzz2",
   "CprtZzzzCprt44ZzzzCprt2Zzzz3CprtZzzz2CprtArmi22ZzzzArmi9Palm32Nbat31Zzzz8Nbat9Zzzz48Hatr19",
   "ZzzzHatr2Zzzz5Hatr5Phnx28Zzzz3PhnxLydi26Zzzz5LydiZzzz64Mero32Merc24Zzzz4Merc20Zzzz2Merc46",
   "Khar4ZzzzKhar2Zzzz5Khar8ZzzzKhar3ZzzzKhar29Zzzz2Khar3Zzzz4Khar10Zzzz7Khar9Zzzz7Sarb32",
   "Narb32Zzzz32Mani39Zzzz4Mani12Zzzz9Avst54Zzzz3Avst7Prti22Zzzz2Prti8Phli19Zzzz5Phli8Phlp18",
   "Zzzz7Phlp4Zzzz12Phlp7Zzzz80Orkh73Zzzz55Hung51Zzzz13Hung51Zzzz7Hung6Rohg40Zzzz8Rohg10",
   "Zzzz294Arab31ZzzzYezi42ZzzzYezi3Zzzz2Yezi2Zzzz75Arab3Sogo40Zzzz8Sogd42Zzzz22Ougr26Zzzz38",
   "Chrs28Zzzz20Elym23Zzzz9Brah78Zzzz4Brah36Zzzz9BrahKthi67Zzzz10KthiZzzz2Sora25Zzzz7Sora10",
   "Zzzz6Cakm53ZzzzCakm18Zzzz8Mahj39Zzzz9Shrd96ZzzzSinh20Zzzz11Khoj18ZzzzKhoj47Zzzz62Mult7Zzzz",
   "MultZzzzMult4ZzzzMult15ZzzzMult11Zzzz6Sind59Zzzz5Sind10Zzzz6Gran4ZzzzGran8Zzzz2Gran2Zzzz2",
   "Gran22ZzzzGran7ZzzzGran2ZzzzGran5ZzzzZinhGran9Zzzz2Gran2Zzzz2Gran3Zzzz2GranZzzz6GranZzzz5",
   "Gran7Zzzz2Gran7Zzzz3Gran5Zzzz139Newa92ZzzzNewa5Zzzz30Tirh72Zzzz8Tirh10Zzzz166Sidd54Zzzz2",
   "Sidd38Zzzz34Modi69Zzzz11Modi10Zzzz6Mong13Zzzz19Takr58Zzzz6Takr10Zzzz54Ahom27Zzzz2Ahom15",
   "Zzzz4Ahom23Zzzz185Dogr60Zzzz100Wara83Zzzz12WaraDiak7Zzzz2DiakZzzz2Diak8ZzzzDiak2ZzzzDiak30",
   "ZzzzDiak2Zzzz2Diak12Zzzz9Diak10Zzzz70Nand8Zzzz2Nand46Zzzz2Nand11Zzzz27Zanb72Zzzz8Soyo83",
   "Zzzz13Cans16Pauc57Zzzz7Deva10Zzzz246Bhks9ZzzzBhks45ZzzzBhks14Zzzz10Bhks29Zzzz3Marc32Zzzz2",
   "Marc22ZzzzMarc14Zzzz73Gonm7ZzzzGonm2ZzzzGonm44Zzzz3GonmZzzzGonm2ZzzzGonm9Zzzz8Gonm10Zzzz6",
   "Gong6ZzzzGong2ZzzzGong37ZzzzGong2ZzzzGong6Zzzz7Gong10Zzzz310Maka25Zzzz7Kawi17ZzzzKawi41",
   "Zzzz3Kawi28Zzzz86LisuZzzz15Taml50Zzzz13TamlXsux922Zzzz102Xsux111ZzzzXsux5Zzzz11Xsux196",
   "Zzzz2636Cpmn99Zzzz13Egyp1110Zzzz4010Hluw583Zzzz8633Bamu569Zzzz7Mroo31ZzzzMroo10Zzzz4Mroo2",
   "Tnsa79ZzzzTnsa10Zzzz6Bass30Zzzz2Bass6Zzzz10Hmng70Zzzz10Hmng10ZzzzHmng7ZzzzHmng21Zzzz5",
   "Hmng19Zzzz688Medf91Zzzz101Plrd75Zzzz4Plrd57Zzzz7Plrd17Zzzz64TangNshuHani2KitsZzzz11Hani2",
   "Zzzz14Tang6136Zzzz8Tang768Kits470Zzzz42Tang9Zzzz8935Kana4ZzzzKana7ZzzzKana2ZzzzKanaHira287",
   "Kana3Zzzz15HiraZzzz29Hira3Zzzz2KanaZzzz14Kana4Zzzz8Nshu396Zzzz2308Dupl107Zzzz5Dupl13Zzzz3",
   "Dupl9Zzzz7Dupl10Zzzz2Dupl4Zyyy4Zzzz4700Zinh46Zzzz2Zinh23Zzzz9Zyyy116Zzzz60Zyyy246Zzzz10",
   "Zyyy39Zzzz2Zyyy62Zinh3Zyyy17Zinh8Zyyy2Zinh7Zyyy30Zinh4Zyyy61Zzzz21Grek70Zzzz122Zyyy20",
   "Zzzz12Zyyy20Zzzz12Zyyy87Zzzz9Zyyy25Zzzz135Zyyy85ZzzzZyyy71ZzzzZyyy2Zzzz2ZyyyZzzz2Zyyy2",
   "Zzzz2Zyyy4ZzzzZyyy12ZzzzZyyyZzzzZyyy7ZzzzZyyy65ZzzzZyyy4Zzzz2Zyyy8ZzzzZyyy7ZzzzZyyy28Zzzz",
   "Zyyy4ZzzzZyyy5ZzzzZyyyZzzz3Zyyy7ZzzzZyyy340Zzzz2Zyyy292Zzzz2Zyyy50Sgnw652Zzzz15Sgnw5Zzzz",
   "Sgnw15Zzzz1104Latn31Zzzz6Latn6Zzzz213Glag7ZzzzGlag17Zzzz2Glag7ZzzzGlag2ZzzzGlag5Zzzz5",
   "Cyrl62Zzzz33CyrlZzzz112Hmnp45Zzzz3Hmnp14Zzzz2Hmnp10Zzzz4Hmnp2Zzzz320Toto31Zzzz17Wcho58",
   "Zzzz5WchoZzzz464Nagm42Zzzz742Ethi7ZzzzEthi4ZzzzEthi2ZzzzEthi15ZzzzMend197Zzzz2Mend16Zzzz41",
   "Adlm76Zzzz4Adlm10Zzzz4Adlm2Zzzz785Zyyy68Zzzz76Zyyy61Zzzz194Arab4ZzzzArab27ZzzzArab2Zzzz",
   "ArabZzzz2ArabZzzzArab10ZzzzArab4ZzzzArabZzzzArabZzzz6ArabZzzz4ArabZzzzArabZzzzArabZzzz",
   "Arab3ZzzzArab2ZzzzArabZzzz2ArabZzzzArabZzzzArabZzzzArabZzzzArabZzzzArab2ZzzzArabZzzz2Arab4",
   "ZzzzArab7ZzzzArab4ZzzzArab4ZzzzArabZzzzArab10ZzzzArab17Zzzz5Arab3ZzzzArab5ZzzzArab17Zzzz52",
   "Arab2Zzzz270Zyyy44Zzzz4Zyyy100Zzzz12Zyyy15Zzzz2Zyyy15ZzzzZyyy15ZzzzZyyy37Zzzz10Zyyy174",
   "Zzzz56Zyyy26HiraZyyy2Zzzz13Zyyy44Zzzz4Zyyy9Zzzz7Zyyy2Zzzz14Zyyy6Zzzz154Zyyy984Zzzz4Zyyy17",
   "Zzzz3Zyyy13Zzzz3Zyyy119Zzzz4Zyyy95Zzzz6Zyyy12Zzzz4ZyyyZzzz15Zyyy12Zzzz4Zyyy56Zzzz8Zyyy10",
   "Zzzz6Zyyy40Zzzz8Zyyy30Zzzz2Zyyy2Zzzz78Zyyy340Zzzz12Zyyy14Zzzz2Zyyy13Zzzz3Zyyy9Zzzz7Zyyy46",
   "ZzzzZyyy7Zzzz8Zyyy14Zzzz4Zyyy9Zzzz7Zyyy9Zzzz7Zyyy147ZzzzZyyy55Zzzz37Zyyy10Zzzz1030",
   "Hani42720Zzzz32Hani4154Zzzz6Hani222Zzzz2Hani5762Zzzz14Hani7473Zzzz3103Hani542Zzzz1506",
   "Hani4939Zzzz5Hani4192Zzzz711761ZyyyZzzz30Zyyy96Zzzz128Zinh240Zzzz196112"]

/-- Names of scripts in lower case, each with its code. -/
def scriptNames : List (String × String) :=
  [("adlam", "Adlm"), ("caucasianalbanian", "Aghb"), ("arabic", "Arab"),
   ("imperialaramaic", "Armi"), ("armenian", "Armn"), ("avestan", "Avst"),
   ("balinese", "Bali"), ("bamum", "Bamu"), ("bassavah", "Bass"), ("batak", "Batk"),
   ("bengali", "Beng"), ("bhaiksuki", "Bhks"), ("bopomofo", "Bopo"), ("brahmi", "Brah"),
   ("braille", "Brai"), ("buginese", "Bugi"), ("buhid", "Buhd"), ("chakma", "Cakm"),
   ("canadianaboriginal", "Cans"), ("carian", "Cari"), ("cherokee", "Cher"),
   ("chorasmian", "Chrs"), ("coptic", "Copt"), ("qaac", "Copt"), ("cyprominoan", "Cpmn"),
   ("cypriot", "Cprt"), ("cyrillic", "Cyrl"), ("devanagari", "Deva"), ("divesakuru", "Diak"),
   ("dogra", "Dogr"), ("deseret", "Dsrt"), ("duployan", "Dupl"),
   ("egyptianhieroglyphs", "Egyp"), ("elbasan", "Elba"), ("elymaic", "Elym"),
   ("ethiopic", "Ethi"), ("georgian", "Geor"), ("glagolitic", "Glag"),
   ("gunjalagondi", "Gong"), ("masaramgondi", "Gonm"), ("gothic", "Goth"), ("grantha", "Gran"),
   ("greek", "Grek"), ("gujarati", "Gujr"), ("gurmukhi", "Guru"), ("hangul", "Hang"),
   ("han", "Hani"), ("hanunoo", "Hano"), ("hatran", "Hatr"), ("hebrew", "Hebr"),
   ("hiragana", "Hira"), ("anatolianhieroglyphs", "Hluw"), ("pahawhhmong", "Hmng"),
   ("nyiakengpuachuehmong", "Hmnp"), ("oldhungarian", "Hung"), ("olditalic", "Ital"),
   ("javanese", "Java"), ("kayahli", "Kali"), ("katakana", "Kana"), ("kharoshthi", "Khar"),
   ("khmer", "Khmr"), ("khojki", "Khoj"), ("khitansmallscript", "Kits"), ("kannada", "Knda"),
   ("kaithi", "Kthi"), ("taitham", "Lana"), ("lao", "Laoo"), ("latin", "Latn"),
   ("lepcha", "Lepc"), ("limbu", "Limb"), ("lineara", "Lina"), ("linearb", "Linb"),
   ("lycian", "Lyci"), ("lydian", "Lydi"), ("mahajani", "Mahj"), ("makasar", "Maka"),
   ("mandaic", "Mand"), ("manichaean", "Mani"), ("marchen", "Marc"), ("medefaidrin", "Medf"),
   ("mendekikakui", "Mend"), ("meroiticcursive", "Merc"), ("meroitichieroglyphs", "Mero"),
   ("malayalam", "Mlym"), ("mongolian", "Mong"), ("mro", "Mroo"), ("meeteimayek", "Mtei"),
   ("multani", "Mult"), ("myanmar", "Mymr"), ("nagmundari", "Nagm"), ("nandinagari", "Nand"),
   ("oldnortharabian", "Narb"), ("nabataean", "Nbat"), ("nko", "Nkoo"), ("nushu", "Nshu"),
   ("ogham", "Ogam"), ("olchiki", "Olck"), ("oldturkic", "Orkh"), ("oriya", "Orya"),
   ("osage", "Osge"), ("osmanya", "Osma"), ("olduyghur", "Ougr"), ("palmyrene", "Palm"),
   ("paucinhau", "Pauc"), ("oldpermic", "Perm"), ("phagspa", "Phag"),
   ("inscriptionalpahlavi", "Phli"), ("psalterpahlavi", "Phlp"), ("phoenician", "Phnx"),
   ("miao", "Plrd"), ("inscriptionalparthian", "Prti"), ("rejang", "Rjng"),
   ("hanifirohingya", "Rohg"), ("runic", "Runr"), ("samaritan", "Samr"),
   ("oldsoutharabian", "Sarb"), ("saurashtra", "Saur"), ("signwriting", "Sgnw"),
   ("shavian", "Shaw"), ("sharada", "Shrd"), ("siddham", "Sidd"), ("khudawadi", "Sind"),
   ("sinhala", "Sinh"), ("sogdian", "Sogd"), ("oldsogdian", "Sogo"), ("sorasompeng", "Sora"),
   ("soyombo", "Soyo"), ("sundanese", "Sund"), ("sylotinagri", "Sylo"), ("syriac", "Syrc"),
   ("tagbanwa", "Tagb"), ("takri", "Takr"), ("taile", "Tale"), ("newtailue", "Talu"),
   ("tamil", "Taml"), ("tangut", "Tang"), ("taiviet", "Tavt"), ("telugu", "Telu"),
   ("tifinagh", "Tfng"), ("tagalog", "Tglg"), ("thaana", "Thaa"), ("tibetan", "Tibt"),
   ("tirhuta", "Tirh"), ("tangsa", "Tnsa"), ("ugaritic", "Ugar"), ("vai", "Vaii"),
   ("vithkuqi", "Vith"), ("warangciti", "Wara"), ("wancho", "Wcho"), ("oldpersian", "Xpeo"),
   ("cuneiform", "Xsux"), ("yezidi", "Yezi"), ("yi", "Yiii"), ("zanabazarsquare", "Zanb"),
   ("inherited", "Zinh"), ("qaai", "Zinh"), ("common", "Zyyy")]

def scriptTable : Array (Nat × List Char) := runTable 4 scriptRuns

/-- The code of the script that a code point belongs to. -/
def script (c : Char) : List Char := runAt scriptTable c.toNat

/-- The code of a script that is given in lower case, by its name or by the code. The code points
that have no script make up none. -/
def scriptNamed? (name : List Char) : Option (List Char) :=
  match scriptNames.find? fun (long, _) => long.toList = name with
  | some (_, code) => some code.toList
  | none =>
      ((scriptTable.toList.find? fun (_, code) => code.map Char.toLower = name).map Prod.snd).filter
        (· ≠ "Zzzz".toList)

end WebBundle.Text
