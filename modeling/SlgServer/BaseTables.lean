import Mathlib.Data.Nat.Notation

/-!
# The shipped tables of `mjlib/base`

The numeric keys of `auto_table.lua` and `auto_table_with_eye.lua`, as shipped.
A Lua table has no order, so the keys stand here in the order of their digits.
Both files also hold the key `collect`, which the generator left in them; it is
a field of `BaseTable` where the checker is modelled.
-/

namespace SlgServer

/-- The numeric keys of `base/auto_table.lua`. -/
def baseAutoTable : List ℕ :=
  [111, 111111, 111111111, 111111114, 111111141, 111111222, 1111113, 11111133, 111111411,
   11111211, 111112113, 11111214, 111112221, 11111241, 11111322, 111114, 111114111, 1111143,
   1111221, 11112213, 111122211, 1111224, 11112321, 1111332, 111141, 111141111, 1111413, 11114211,
   111144, 111222, 111222111, 1112223, 11122311, 1112331, 1113, 1113111, 11131113, 111311211,
   1113114, 11131221, 1113141, 1113222, 11133, 11133111, 111333, 1113411, 111411, 111411111,
   1114113, 11141211, 111414, 1114221, 111441, 11211, 11211111, 112111113, 11211114, 112111221,
   11211141, 11211222, 112113, 112113111, 1121133, 11211411, 1121211, 11212113, 112121211,
   1121214, 11212221, 1121241, 1121322, 11214, 11214111, 112143, 112221, 112221111, 1122213,
   11222211, 112224, 1122321, 112332, 11241, 11241111, 112413, 1124211, 11244, 11322, 11322111,
   113223, 1132311, 113331, 114, 114111, 114111111, 1141113, 11411211, 114114, 1141221, 114141,
   114222, 1143, 1143111, 11433, 114411, 1221, 1221111, 12211113, 122111211, 1221114, 12211221,
   1221141, 1221222, 12213, 12213111, 122133, 1221411, 122211, 122211111, 1222113, 12221211,
   122214, 1222221, 122241, 122322, 1224, 1224111, 12243, 12321, 12321111, 123213, 1232211, 12324,
   123321, 12432, 1332, 1332111, 13323, 133311, 13431, 141, 141111, 141111111, 1411113, 14111211,
   141114, 1411221, 141141, 141222, 1413, 1413111, 14133, 141411, 14211, 14211111, 142113,
   1421211, 14214, 142221, 14241, 14322, 144, 144111, 1443, 222, 222111, 222111111, 2221113,
   22211211, 222114, 2221221, 222141, 222222, 2223, 2223111, 22233, 222411, 22311, 22311111,
   223113, 2231211, 22314, 223221, 22341, 22422, 2331, 2331111, 23313, 233211, 2334, 23421, 2442,
   3, 3111, 3111111, 31111113, 311111211, 3111114, 31111221, 3111141, 3111222, 31113, 31113111,
   311133, 3111411, 311211, 311211111, 3112113, 31121211, 311214, 3112221, 311241, 311322, 3114,
   3114111, 31143, 31221, 31221111, 312213, 3122211, 31224, 312321, 31332, 3141, 3141111, 31413,
   314211, 3144, 3222, 3222111, 32223, 322311, 32331, 33, 33111, 33111111, 331113, 3311211, 33114,
   331221, 33141, 33222, 333, 333111, 3333, 33411, 3411, 3411111, 34113, 341211, 3414, 34221,
   3441, 411, 411111, 411111111, 4111113, 41111211, 411114, 4111221, 411141, 411222, 4113,
   4113111, 41133, 411411, 41211, 41211111, 412113, 4121211, 41214, 412221, 41241, 41322, 414,
   414111, 4143, 4221, 4221111, 42213, 422211, 4224, 42321, 4332, 441, 441111, 4413, 44211, 444]

set_option maxRecDepth 16000 in
/-- The numeric keys of `base/auto_table_with_eye.lua`. -/
def baseAutoTableWithEye : List ℕ :=
  [111111113, 111111131, 111111134, 111111143, 1111112, 111111224, 11111123, 111111233, 111111242,
   111111311, 111111314, 11111132, 111111323, 111111332, 111111341, 111111413, 111111422,
   111111431, 111112112, 11111213, 111112133, 111112142, 111112223, 111112241, 11111231,
   111112313, 11111234, 111112412, 111112421, 11111243, 111113, 111113111, 111113114, 111113141,
   111113222, 11111324, 1111133, 11111333, 111113411, 11111342, 11111411, 111114113, 111114131,
   11111414, 1111142, 111114221, 11111423, 111114311, 11111432, 11111441, 11112212, 111122123,
   111122132, 111122213, 111122231, 1111223, 11112233, 111122411, 11112242, 111123212, 11112323,
   11112341, 1111241, 11112413, 111124211, 1111244, 111131, 111131111, 111131114, 111131141,
   111131222, 1111313, 11113133, 111131411, 11113211, 111132113, 11113214, 111132221, 11113241,
   11113322, 1111334, 111134, 111134111, 1111343, 111141113, 111141131, 1111412, 11114123,
   111141311, 11114132, 1111421, 111142112, 11114213, 111142211, 11114231, 1111424, 111143,
   111143111, 11114321, 1111433, 11114411, 1111442, 1112, 1112111, 11121113, 111211133, 111211211,
   111211214, 111211241, 111211322, 1112114, 11121143, 11121221, 111212213, 11121224, 111212321,
   11121332, 1112141, 11121413, 111214211, 1112144, 111222113, 111222131, 1112222, 11122223,
   111222311, 11122232, 111223112, 11122313, 11122331, 111224, 111224111, 1112243, 11123,
   11123111, 111231113, 11123114, 111231221, 11123141, 11123222, 111233, 111233111, 11123312,
   1112333, 11123411, 1112411, 11124113, 111241211, 1112414, 111242, 111242111, 11124221, 1112423,
   11124311, 1112441, 111311, 111311111, 111311114, 11131112, 111311123, 111311132, 111311141,
   111311213, 111311222, 111311231, 1113113, 11131133, 111311411, 11131142, 11131211, 111312113,
   11131214, 111312212, 111312221, 11131223, 11131241, 1113131, 11131313, 111313211, 11131322,
   1113134, 111314, 111314111, 11131412, 11131421, 1113143, 11132, 11132111, 111321113, 11132114,
   111321221, 11132141, 1113221, 11132213, 111322211, 11132222, 1113224, 111323, 111323111,
   11132321, 1113233, 11132411, 1113242, 1113311, 111331112, 11133113, 111331211, 11133131,
   1113314, 111332, 111332111, 11133221, 1113323, 11133311, 1113332, 1113341, 111341, 111341111,
   11134112, 1113413, 11134211, 1113422, 1113431, 111344, 111411113, 111411131, 1114112, 11141123,
   111411311, 11141132, 111412112, 11141213, 11141231, 111413, 111413111, 1114133, 11141411,
   1114142, 111422, 111422111, 11142212, 1114223, 11142311, 1114241, 111431, 111431111, 1114313,
   11143211, 1114331, 111434, 1114412, 1114421, 111443, 112111112, 11211113, 112111133, 112111142,
   112111223, 112111241, 11211131, 112111313, 11211134, 112111412, 112111421, 11211143, 112112,
   112112111, 112112114, 112112141, 112112222, 11211224, 1121123, 11211233, 112112411, 11211242,
   11211311, 112113113, 112113131, 11211314, 1121132, 112113221, 11211323, 112113311, 11211332,
   11211341, 112114112, 11211413, 11211422, 11211431, 11212112, 112121123, 112121132, 112121213,
   112121231, 1121213, 11212133, 112121411, 11212142, 112122212, 11212223, 11212241, 1121231,
   11212313, 112123211, 1121234, 11212412, 11212421, 1121243, 11213, 11213111, 112131113,
   11213114, 112131221, 11213141, 11213222, 1121324, 112133, 112133111, 1121333, 11213411,
   1121342, 1121411, 112141112, 11214113, 112141211, 11214131, 1121414, 112142, 112142111,
   11214221, 1121423, 11214311, 1121432, 1121441, 112221113, 112221131, 1122212, 11222123,
   112221311, 11222132, 112222112, 11222213, 11222231, 112223, 112223111, 1122233, 11222411,
   1122242, 11223212, 1122323, 1122341, 112241, 112241111, 1122413, 11224211, 112244, 11231,
   11231111, 112311113, 11231114, 112311221, 11231141, 11231222, 112313, 112313111, 1123133,
   11231411, 1123211, 11232113, 112321211, 1123214, 11232221, 1123241, 1123322, 112334, 11234,
   11234111, 112343, 112411112, 11241113, 11241131, 112412, 112412111, 1124123, 11241311, 1124132,
   112421, 112421111, 11242112, 1124213, 11242211, 1124231, 112424, 11243, 11243111, 1124321,
   112433, 1124411, 112442, 113, 113111, 113111111, 113111114, 113111141, 113111222, 1131113,
   11311133, 113111411, 11311211, 113112113, 11311214, 113112221, 11311241, 11311322, 113114,
   113114111, 1131143, 1131221, 11312213, 113122211, 1131224, 11312321, 1131332, 113141,
   113141111, 1131413, 11314211, 113144, 113221112, 11322113, 11322131, 113222, 113222111,
   1132223, 11322311, 1132232, 11323112, 1132313, 1132331, 11324, 11324111, 113243, 1133, 1133111,
   11331113, 113311211, 1133114, 11331221, 1133141, 1133222, 11333, 11333111, 1133312, 113333,
   1133411, 113411, 113411111, 1134113, 11341211, 113414, 11342, 11342111, 1134221, 113423,
   1134311, 113441, 11411, 11411111, 114111113, 114111131, 11411114, 1141112, 114111221, 11411123,
   114111311, 11411132, 11411141, 114112112, 11411213, 11411222, 11411231, 114113, 114113111,
   1141133, 11411411, 1141142, 1141211, 11412113, 114121211, 1141214, 11412212, 11412221, 1141223,
   1141241, 114131, 114131111, 1141313, 11413211, 1141322, 114134, 11414, 11414111, 1141412,
   1141421, 114143, 1142, 1142111, 11421113, 114211211, 1142114, 11421221, 1142141, 114221,
   114221111, 1142213, 11422211, 1142222, 114224, 11423, 11423111, 1142321, 114233, 1142411,
   114242, 114311, 114311111, 11431112, 1143113, 11431211, 1143131, 114314, 11432, 11432111,
   1143221, 114323, 1143311, 114332, 114341, 11441, 11441111, 1144112, 114413, 1144211, 114422,
   114431, 11444, 12211112, 122111123, 122111132, 122111213, 122111231, 1221113, 12211133,
   122111411, 12211142, 122112212, 12211223, 12211241, 1221131, 12211313, 122113211, 1221134,
   12211412, 12211421, 1221143, 12212, 12212111, 122121113, 12212114, 122121221, 12212141,
   12212222, 1221224, 122123, 122123111, 1221233, 12212411, 1221242, 1221311, 122131112, 12213113,
   122131211, 12213131, 1221314, 122132, 122132111, 12213221, 1221323, 12213311, 1221332, 1221341,
   12214112, 1221413, 1221422, 1221431, 122211113, 122211131, 1222112, 12221123, 122211311,
   12221132, 122212112, 12221213, 12221231, 122213, 122213111, 1222133, 12221411, 1222142,
   12222212, 1222223, 1222241, 122231, 122231111, 1222313, 12223211, 122234, 1222412, 1222421,
   122243, 1223, 1223111, 12231113, 122311211, 1223114, 12231221, 1223141, 1223222, 122324, 12233,
   12233111, 122333, 1223411, 122342, 122411, 122411111, 12241112, 1224113, 12241211, 1224131,
   122414, 12242, 12242111, 1224221, 122423, 1224311, 122432, 122441, 123211112, 12321113,
   12321131, 123212, 123212111, 1232123, 12321311, 1232132, 12322112, 1232213, 1232231, 12323,
   12323111, 123233, 1232411, 123242, 1233212, 123323, 123341, 12341, 12341111, 123413, 1234211,
   12344, 1241, 1241111, 12411113, 124111211, 1241114, 12411221, 1241141, 1241222, 12413,
   12413111, 124133, 1241411, 124211, 124211111, 1242113, 12421211, 124214, 1242221, 124241,
   124322, 12434, 1244, 1244111, 12443, 131, 131111, 131111111, 131111114, 131111141, 131111222,
   1311113, 13111133, 131111411, 13111211, 131112113, 13111214, 131112221, 13111241, 13111322,
   131114, 131114111, 1311143, 1311221, 13112213, 131122211, 1311224, 13112321, 1311332, 131141,
   131141111, 1311413, 13114211, 131144, 131222, 131222111, 1312223, 13122311, 1312331, 1313,
   1313111, 13131113, 131311211, 1313114, 13131221, 1313141, 1313222, 13133, 13133111, 131333,
   1313411, 131411, 131411111, 1314113, 13141211, 131414, 1314221, 131441, 13211, 13211111,
   132111113, 13211114, 132111221, 13211141, 13211222, 132113, 132113111, 1321133, 13211411,
   1321211, 13212113, 132121211, 1321214, 13212221, 1321241, 1321322, 13214, 13214111, 132143,
   132221, 132221111, 1322213, 13222211, 132224, 1322321, 132332, 13241, 13241111, 132413,
   1324211, 13244, 13321112, 1332113, 1332131, 13322, 13322111, 133223, 1332311, 133232, 1333112,
   133313, 133331, 1334, 1334111, 13343, 134, 134111, 134111111, 1341113, 13411211, 134114,
   1341221, 134141, 134222, 1343, 1343111, 134312, 13433, 134411, 141111113, 141111131, 1411112,
   14111123, 141111311, 14111132, 141112112, 14111213, 14111231, 141113, 141113111, 1411133,
   14111411, 1411142, 14112212, 1411223, 1411241, 141131, 141131111, 1411313, 14113211, 141134,
   1411412, 1411421, 141143, 1412, 1412111, 14121113, 141211211, 1412114, 14121221, 1412141,
   1412222, 141224, 14123, 14123111, 141233, 1412411, 141242, 141311, 141311111, 14131112,
   1413113, 14131211, 1413131, 141314, 14132, 14132111, 1413221, 141323, 1413311, 141332, 141341,
   1414112, 141413, 141422, 141431, 1421, 1421111, 142111112, 14211113, 142111211, 14211131,
   1421114, 142112, 142112111, 14211221, 1421123, 14211311, 1421132, 1421141, 14212112, 1421213,
   1421222, 1421231, 14213, 14213111, 142133, 1421411, 142142, 142211, 142211111, 1422113,
   14221211, 142214, 1422212, 1422221, 142223, 142241, 14231, 14231111, 142313, 1423211, 142322,
   14234, 1424, 1424111, 142412, 142421, 14243, 143, 143111, 143111111, 1431113, 14311211, 143114,
   1431221, 143141, 14321, 14321111, 143213, 1432211, 143222, 14324, 1433, 1433111, 143321, 14333,
   143411, 14342, 14411, 14411111, 1441112, 144113, 1441211, 144131, 14414, 1442, 1442111, 144221,
   14423, 144311, 14432, 14441, 2111, 2111111, 21111113, 211111133, 211111211, 211111214,
   211111241, 211111322, 2111114, 21111143, 21111221, 211112213, 21111224, 211112321, 21111332,
   2111141, 21111413, 211114211, 2111144, 2111222, 21112223, 211122311, 21112331, 21113, 21113111,
   211131113, 21113114, 211131221, 21113141, 21113222, 211133, 211133111, 2111333, 21113411,
   2111411, 21114113, 211141211, 2111414, 21114221, 2111441, 211211, 211211111, 211211114,
   211211141, 211211222, 2112113, 21121133, 211211411, 21121211, 211212113, 21121214, 211212221,
   21121241, 21121322, 211214, 211214111, 2112143, 2112221, 21122213, 211222211, 2112224,
   21122321, 2112332, 211241, 211241111, 2112413, 21124211, 211244, 211322, 211322111, 2113223,
   21132311, 2113331, 2114, 2114111, 21141113, 211411211, 2114114, 21141221, 2114141, 2114222,
   21143, 21143111, 211433, 2114411, 21221, 21221111, 212211113, 21221114, 212211221, 21221141,
   21221222, 212213, 212213111, 2122133, 21221411, 2122211, 21222113, 212221211, 2122214,
   21222221, 2122241, 2122322, 21224, 21224111, 212243, 212321, 212321111, 2123213, 21232211,
   212324, 2123321, 212432, 21332, 21332111, 213323, 2133311, 213431, 2141, 2141111, 21411113,
   214111211, 2141114, 21411221, 2141141, 2141222, 21413, 21413111, 214133, 2141411, 214211,
   214211111, 2142113, 21421211, 214214, 2142221, 214241, 214322, 2144, 2144111, 21443, 222111113,
   222111131, 2221112, 22211123, 222111311, 22211132, 222112112, 22211213, 22211231, 222113,
   222113111, 2221133, 22211411, 2221142, 22212212, 2221223, 2221241, 222131, 222131111, 2221313,
   22213211, 222134, 2221412, 2221421, 222143, 2222, 2222111, 22221113, 222211211, 2222114,
   22221221, 2222141, 2222222, 222224, 22223, 22223111, 222233, 2222411, 222242, 222311,
   222311111, 22231112, 2223113, 22231211, 2223131, 222314, 22232, 22232111, 2223221, 222323,
   2223311, 222332, 222341, 2224112, 222413, 222422, 222431, 223111112, 22311113, 22311131,
   223112, 223112111, 2231123, 22311311, 2231132, 22312112, 2231213, 2231231, 22313, 22313111,
   223133, 2231411, 223142, 2232212, 223223, 223241, 22331, 22331111, 223313, 2233211, 22334,
   223412, 223421, 22343, 224, 224111, 224111111, 2241113, 22411211, 224114, 2241221, 224141,
   224222, 22424, 2243, 2243111, 22433, 224411, 22442, 23, 23111, 23111111, 231111113, 23111114,
   231111221, 23111141, 23111222, 231113, 231113111, 2311133, 23111411, 2311211, 23112113,
   231121211, 2311214, 23112221, 2311241, 2311322, 23114, 23114111, 231143, 231221, 231221111,
   2312213, 23122211, 231224, 2312321, 231332, 23141, 23141111, 231413, 2314211, 23144, 23222,
   23222111, 232223, 2322311, 232331, 233, 233111, 233111111, 23311112, 2331113, 23311211,
   2331131, 233114, 23312, 23312111, 2331221, 233123, 2331311, 233132, 233141, 2332112, 233213,
   233222, 233231, 2333, 2333111, 23333, 233411, 23342, 23411, 23411111, 234113, 2341211, 23414,
   234212, 234221, 23423, 23441, 2411, 2411111, 24111113, 241111211, 2411114, 24111221, 2411141,
   2411222, 24113, 24113111, 241133, 2411411, 241211, 241211111, 2412113, 24121211, 241214,
   2412221, 241241, 241322, 2414, 2414111, 24143, 242, 242111, 242111111, 2421113, 24211211,
   242114, 2421221, 242141, 24221, 24221111, 242213, 2422211, 242222, 24224, 2423, 2423111,
   242321, 24233, 242411, 24311, 24311111, 243113, 2431211, 24314, 243221, 24332, 24341, 2441,
   2441111, 24413, 244211, 24422, 2444, 311, 311111, 311111111, 311111114, 31111112, 311111123,
   311111132, 311111141, 311111213, 311111222, 311111231, 3111113, 31111133, 311111411, 31111142,
   31111211, 311112113, 31111214, 311112212, 311112221, 31111223, 31111241, 3111131, 31111313,
   311113211, 31111322, 3111134, 311114, 311114111, 31111412, 31111421, 3111143, 31112, 31112111,
   311121113, 31112114, 311121221, 31112141, 3111221, 31112213, 311122211, 31112222, 3111224,
   311123, 311123111, 31112321, 3111233, 31112411, 3111242, 3111311, 311131112, 31113113,
   311131211, 31113131, 3111314, 311132, 311132111, 31113221, 3111323, 31113311, 3111332, 3111341,
   311141, 311141111, 31114112, 3111413, 31114211, 3111422, 3111431, 311144, 311211113, 311211131,
   3112112, 31121123, 311211311, 31121132, 311212112, 31121213, 31121231, 311213, 311213111,
   3112133, 31121411, 3112142, 311222, 311222111, 31122212, 3112223, 31122311, 3112241, 311231,
   311231111, 3112313, 31123211, 3112331, 311234, 3112412, 3112421, 311243, 3113, 3113111,
   31131113, 311311211, 3113114, 31131221, 3113141, 3113222, 311324, 31133, 31133111, 311333,
   3113411, 311342, 311411, 311411111, 31141112, 3114113, 31141211, 3114131, 311414, 31142,
   31142111, 3114221, 311423, 3114311, 311432, 311441, 31211, 31211111, 312111113, 31211114,
   312111221, 31211141, 31211222, 312113, 312113111, 3121133, 31211411, 3121211, 31212113,
   312121211, 3121214, 31212221, 3121241, 3121322, 31214, 31214111, 312143, 312211112, 31221113,
   31221131, 312212, 312212111, 3122123, 31221311, 3122132, 312221, 312221111, 31222112, 3122213,
   31222211, 3122231, 312224, 31223, 31223111, 3122321, 312233, 3122411, 312242, 3123212, 312323,
   312332, 312341, 31241, 31241111, 312413, 3124211, 31244, 3131, 3131111, 31311113, 313111211,
   3131114, 31311221, 3131141, 3131222, 31313, 31313111, 313133, 3131411, 313211, 313211111,
   3132113, 31321211, 313214, 31322, 31322111, 3132221, 313223, 3132311, 313241, 313322, 313331,
   31334, 3134, 3134111, 31343, 314, 314111, 314111111, 31411112, 3141113, 31411211, 3141131,
   314114, 31412, 31412111, 3141221, 314123, 3141311, 314132, 314141, 31421, 31421111, 3142112,
   314213, 3142211, 314222, 314231, 31424, 3143, 3143111, 314321, 31433, 314411, 31442, 32, 32111,
   32111111, 321111113, 32111114, 321111221, 32111141, 32111222, 321113, 321113111, 3211133,
   32111411, 3211211, 32112113, 321121211, 3211214, 32112221, 3211241, 3211322, 32114, 32114111,
   321143, 321221, 321221111, 3212213, 32122211, 321224, 3212321, 321332, 32141, 32141111, 321413,
   3214211, 32144, 3221, 3221111, 32211113, 322111211, 3221114, 32211221, 3221141, 3221222, 32213,
   32213111, 322133, 3221411, 322211, 322211111, 32221112, 3222113, 32221211, 3222131, 322214,
   32222, 32222111, 3222221, 322223, 3222311, 322232, 322241, 3223112, 322313, 322322, 322331,
   3224, 3224111, 32243, 323, 323111, 323111111, 3231113, 32311211, 323114, 3231221, 323141,
   32321, 32321111, 323213, 3232211, 323222, 32324, 3233, 3233111, 323312, 323321, 32333, 323411,
   32411, 32411111, 324113, 3241211, 32414, 3242, 3242111, 324221, 32423, 324311, 32432, 32441,
   3311, 3311111, 331111112, 33111113, 331111211, 33111131, 3311114, 331112, 331112111, 33111221,
   3311123, 33111311, 3311132, 3311141, 33112112, 3311213, 3311222, 3311231, 33113, 33113111,
   331133, 3311411, 331142, 331211, 331211111, 3312113, 33121211, 331214, 3312212, 3312221,
   331223, 331241, 33131, 33131111, 331313, 3313211, 331322, 33134, 3314, 3314111, 331412, 331421,
   33143, 332, 332111, 332111111, 3321113, 33211211, 332114, 3321221, 332141, 33221, 33221111,
   332213, 3322211, 332222, 33224, 3323, 3323111, 332321, 33233, 332411, 33242, 33311, 33311111,
   3331112, 333113, 3331211, 333131, 33314, 3332, 3332111, 333221, 33323, 333311, 33332, 33341,
   3341, 3341111, 334112, 33413, 334211, 33422, 33431, 3344, 341, 341111, 341111111, 34111112,
   3411113, 34111211, 3411131, 341114, 34112, 34112111, 3411221, 341123, 3411311, 341132, 341141,
   3412112, 341213, 341222, 341231, 3413, 3413111, 34133, 341411, 34142, 34211, 34211111, 342113,
   3421211, 34214, 3422, 3422111, 342212, 342221, 34223, 342311, 34241, 3431, 3431111, 34313,
   343211, 34322, 34331, 3434, 344, 344111, 34412, 34421, 3443, 411111113, 411111131, 4111112,
   41111123, 411111311, 41111132, 411112112, 41111213, 41111231, 411113, 411113111, 4111133,
   41111411, 4111142, 41112212, 4111223, 4111241, 411131, 411131111, 4111313, 41113211, 411134,
   4111412, 4111421, 411143, 4112, 4112111, 41121113, 411211211, 4112114, 41121221, 4112141,
   4112222, 411224, 41123, 41123111, 411233, 4112411, 411242, 411311, 411311111, 41131112,
   4113113, 41131211, 4113131, 411314, 41132, 41132111, 4113221, 411323, 4113311, 411332, 411341,
   4114112, 411413, 411422, 411431, 412111112, 41211113, 41211131, 412112, 412112111, 4121123,
   41211311, 4121132, 41212112, 4121213, 4121231, 41213, 41213111, 412133, 4121411, 412142,
   4122212, 412223, 412241, 41231, 41231111, 412313, 4123211, 41234, 412412, 412421, 41243, 413,
   413111, 413111111, 4131113, 41311211, 413114, 4131221, 413141, 413222, 41324, 4133, 4133111,
   41333, 413411, 41342, 41411, 41411111, 4141112, 414113, 4141211, 414131, 41414, 4142, 4142111,
   414221, 41423, 414311, 41432, 41441, 422, 422111, 422111111, 42211112, 4221113, 42211211,
   4221131, 422114, 42212, 42212111, 4221221, 422123, 4221311, 422132, 422141, 4222112, 422213,
   422222, 422231, 4223, 4223111, 42233, 422411, 42242, 42311, 42311111, 423113, 4231211, 42314,
   423212, 423221, 42323, 42341, 4241, 4241111, 42413, 424211, 42422, 4244, 431, 431111,
   431111111, 4311113, 43111211, 431114, 4311221, 431141, 431222, 4313, 4313111, 43133, 431411,
   43211, 43211111, 432113, 4321211, 43214, 432221, 43241, 4331, 4331111, 43313, 433211, 43322,
   4334, 434, 434111, 43421, 4343, 4411112, 441113, 441131, 4412, 4412111, 44123, 441311, 44132,
   4421, 4421111, 442112, 44213, 442211, 44231, 4424, 443, 443111, 44321, 4433, 44411, 4442]

end SlgServer
